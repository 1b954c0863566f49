import Mathlib.Data.List.Nodup
import StepGraph.Plan.Schedule
import StepGraph.Plan.Wiring
import StepGraph.Proofs.Outcome

/-!
# What links write

A `Wire` says that the values of one output of a node go to a register. `Node.attach ws` gives a
node the wires of a list that leave it, after those it has. Wiring the links of a graph is attaching
one wire per link, from the output the link leaves to the register of the slot it enters; nothing
else of a node changes.

The wiring succeeds exactly if every link `Fits`, that is, if it joins an output to a slot of the
same type. The position of a node then depends on those of the nodes its links come from.
-/

namespace StepGraph

/-- The values of an output of a node go to a register. -/
structure Wire where
  source : NodeId
  slot : Nat
  register : Register
deriving DecidableEq

namespace Plan

/-- The registers that wires lead to from an output. -/
def wiredFrom (ws : List Wire) (id : NodeId) (slot : Nat) : List Register :=
  (ws.filter fun w => w.source = id ∧ w.slot = slot).map Wire.register

/-- The node with more wires. -/
def Node.attach (ws : List Wire) (n : Node) : Node :=
  { n with outputs := n.outputs.mapIdx fun k o =>
      { o with consumers := o.consumers ++ wiredFrom ws n.id k } }

/-- The slot that a link may enter. -/
def slotAt? (ns : List Node) (id : NodeId) (slot : Nat) : Option Input :=
  (ns.find? fun n => n.id = id).bind fun n => n.slots[slot]?

/-- The register of a slot. -/
def slotRegister (ns : List Node) (id : NodeId) (slot : Nat) : Register :=
  ((slotAt? ns id slot).map Input.register).getD Register.first

/-- The wire that a link becomes. -/
def linkWire (ns : List Node) (l : Graph.Link) : Wire :=
  ⟨l.fromNode, l.fromSlot.toNat, slotRegister ns l.toNode l.toSlot.toNat⟩

/-- The link joins an output to a slot of the same type. -/
def Fits (ns : List Node) (l : Graph.Link) : Prop :=
  ∃ source ∈ ns, ∃ target ∈ ns, ∃ output input, source.id = l.fromNode ∧ target.id = l.toNode ∧
    target.slots[l.toSlot.toNat]? = some input ∧
    source.outputs[l.fromSlot.toNat]? = some output ∧ output.typeTag = input.typeTag

/-! ## Attaching wires -/

section

variable {ws : List Wire} {n : Node} {ns : List Node}

@[simp] theorem id_attach : (n.attach ws).id = n.id := rfl

@[simp] theorem slots_attach : (n.attach ws).slots = n.slots := rfl

@[simp] theorem map_id_map_attach : (ns.map (Node.attach ws)).map Node.id = ns.map Node.id := by
  rw [List.map_map]
  rfl

theorem wiredFrom_append (ws ws' : List Wire) (id : NodeId) (slot : Nat) :
    wiredFrom (ws ++ ws') id slot = wiredFrom ws id slot ++ wiredFrom ws' id slot := by
  simp [wiredFrom]

theorem wiredFrom_cons (w : Wire) (ws : List Wire) (id : NodeId) (slot : Nat) :
    wiredFrom (w :: ws) id slot =
      if w.source = id ∧ w.slot = slot then w.register :: wiredFrom ws id slot
      else wiredFrom ws id slot := by
  by_cases h : w.source = id ∧ w.slot = slot
  · simp [wiredFrom, h]
  · simp [wiredFrom, h]

theorem mem_wiredFrom {id : NodeId} {slot : Nat} {r : Register} :
    r ∈ wiredFrom ws id slot ↔ ⟨id, slot, r⟩ ∈ ws := by
  simp only [wiredFrom, List.mem_map, List.mem_filter, decide_eq_true_eq]
  constructor
  · rintro ⟨⟨_, _, _⟩, ⟨h, rfl, rfl⟩, rfl⟩
    exact h
  · intro h
    exact ⟨_, ⟨h, rfl, rfl⟩, rfl⟩

theorem getElem?_outputs_attach (k : Nat) :
    (n.attach ws).outputs[k]? =
      n.outputs[k]?.map fun o => { o with consumers := o.consumers ++ wiredFrom ws n.id k } := by
  simp [Node.attach]

/-- Nodes that may differ in their outputs only are equal if each output is. -/
theorem Node.eq_of_getElem?_outputs {n m : Node} (hrest : n = { m with outputs := n.outputs })
    (h : ∀ k : Nat, n.outputs[k]? = m.outputs[k]?) : n = m := by
  have houtputs : n.outputs = m.outputs := List.ext_getElem? h
  rw [hrest, houtputs]

theorem attach_nil : n.attach [] = n := by
  refine Node.eq_of_getElem?_outputs rfl fun k => ?_
  rw [getElem?_outputs_attach]
  cases n.outputs[k]? with
  | none => rfl
  | some o => simp [wiredFrom]

theorem attach_append (ws ws' : List Wire) : n.attach (ws ++ ws') = (n.attach ws).attach ws' := by
  refine Node.eq_of_getElem?_outputs rfl fun k => ?_
  simp only [getElem?_outputs_attach, wiredFrom_append, Option.map_map, id_attach]
  congr 1
  funext o
  simp

theorem slotAt?_map_attach (id : NodeId) (slot : Nat) :
    slotAt? (ns.map (Node.attach ws)) id slot = slotAt? ns id slot := by
  rw [slotAt?, slotAt?, List.find?_map]
  simp only [Function.comp_def, id_attach, Option.bind_map, slots_attach]
  rfl

theorem linkWire_map_attach : linkWire (ns.map (Node.attach ws)) = linkWire ns := by
  funext l
  rw [linkWire, linkWire, slotRegister, slotRegister, slotAt?_map_attach]

theorem fits_map_attach_iff {l : Graph.Link} : Fits (ns.map (Node.attach ws)) l ↔ Fits ns l := by
  simp only [Fits, List.mem_map, exists_exists_and_eq_and, id_attach, slots_attach,
    getElem?_outputs_attach, Option.map_eq_some_iff]
  constructor
  · rintro ⟨s, hs, t, ht, -, i, hsid, htid, hi, ⟨o, ho, rfl⟩, htype⟩
    exact ⟨s, hs, t, ht, o, i, hsid, htid, hi, ho, htype⟩
  · rintro ⟨s, hs, t, ht, o, i, hsid, htid, hi, ho, htype⟩
    exact ⟨s, hs, t, ht, _, i, hsid, htid, hi, ⟨o, ho, rfl⟩, htype⟩

theorem attach_singleton (r : Register) (slot : Nat) :
    n.attach [⟨n.id, slot, r⟩] = n.addConsumer slot r := by
  refine Node.eq_of_getElem?_outputs rfl fun k => ?_
  rw [getElem?_outputs_attach, Node.addConsumer, List.getElem?_modify]
  by_cases hk : slot = k
  · simp [wiredFrom, hk, Output.addConsumer]
  · simp [wiredFrom, hk]

theorem attach_singleton_of_ne {w : Wire} (h : w.source ≠ n.id) : n.attach [w] = n := by
  have hnone : n.attach [w] = n.attach [] := by simp [Node.attach, wiredFrom, h]
  rw [hnone, attach_nil]

end

/-! ## Wiring one link -/

section

variable {ns ns' : List Node} {w w' : Wiring} {l : Graph.Link}

/-- The link leaves the node at position `d` and enters the one at position `i`. -/
def Connects (ns : List Node) (l : Graph.Link) (d i : Nat) : Prop :=
  ns[d]?.map Node.id = some l.fromNode ∧ ns[i]?.map Node.id = some l.toNode

theorem connects_map_attach_iff {ws : List Wire} {d i : Nat} :
    Connects (ns.map (Node.attach ws)) l d i ↔ Connects ns l d i := by
  simp [Connects, List.getElem?_map, Option.map_map, Function.comp_def]

theorem mem_insertAscending {m n : Nat} {ms : List Nat} :
    m ∈ insertAscending n ms ↔ m = n ∨ m ∈ ms := by
  induction ms with
  | nil => simp [insertAscending]
  | cons k ms ih =>
      rw [insertAscending]
      split
      · simp
      · split
        · next hk => simp [hk]
        · rw [List.mem_cons, ih, List.mem_cons]
          exact or_left_comm

theorem eq_of_getElem?_id (hnodup : (ns.map Node.id).Nodup) {id : NodeId} {p q : Nat}
    (hp : ns[p]?.map Node.id = some id) (hq : ns[q]?.map Node.id = some id) : p = q := by
  rw [← List.getElem?_map] at hp hq
  obtain ⟨hlt, -⟩ := List.getElem?_eq_some_iff.1 hp
  exact (List.getElem?_inj hlt hnodup).1 (hp.trans hq.symm)

theorem position?_eq_ok_iff (hnodup : (ns.map Node.id).Nodup) {id : NodeId} {p : Nat} :
    position? ns id = .ok p ↔ ns[p]?.map Node.id = some id := by
  rw [position?]
  split
  · next q hq =>
    have hqid : ns[q]?.map Node.id = some id := by
      obtain ⟨hlt, hid, -⟩ := List.findIdx?_eq_some_iff_getElem.1 hq
      rw [List.getElem?_eq_getElem hlt, Option.map_some]
      exact congrArg some (by simpa using hid)
    constructor
    · intro h
      cases h
      exact hqid
    · intro hp
      rw [eq_of_getElem?_id hnodup hp hqid]
  · next hnone =>
    refine iff_of_false (by simp) ?_
    intro hp
    obtain ⟨n, hn, rfl⟩ := Option.map_eq_some_iff.1 hp
    have := List.findIdx?_eq_none_iff.1 hnone n (List.mem_of_getElem? hn)
    simp at this

theorem find?_id_of_mem (hnodup : (ns.map Node.id).Nodup) {n : Node} (hn : n ∈ ns) :
    ns.find? (fun m => m.id = n.id) = some n := by
  induction ns with
  | nil => simp at hn
  | cons m ns ih =>
      obtain ⟨hm, hnodup⟩ := List.nodup_cons.1 hnodup
      rcases List.mem_cons.1 hn with rfl | hn
      · simp
      · have hne : m.id ≠ n.id := fun h => hm (h ▸ List.mem_map_of_mem hn)
        simpa [hne] using ih hnodup hn

theorem slotAt?_of_mem (hnodup : (ns.map Node.id).Nodup) {n : Node} (hn : n ∈ ns) (slot : Nat) :
    slotAt? ns n.id slot = n.slots[slot]? := by
  rw [slotAt?, find?_id_of_mem hnodup hn, Option.bind_some]

/-- A link is wired if there is an output and a slot for it and their types agree. -/
theorem connectLink_eq_ok_iff {result : List Node × Wiring} :
    connectLink ns w l = .ok result ↔
      ∃ s t input output, position? ns l.fromNode = .ok s ∧ position? ns l.toNode = .ok t ∧
        (ns[t]?.bind fun n => n.slots[l.toSlot.toNat]?) = some input ∧
        (ns[s]?.bind fun n => n.outputs[l.fromSlot.toNat]?) = some output ∧
        output.typeTag = input.typeTag ∧
        result = (ns.modify s fun n => n.addConsumer l.fromSlot.toNat input.register,
          { linked := if input.register ∈ w.linked then w.linked
              else w.linked ++ [input.register]
            dependencies := w.dependencies.modify t (insertAscending s) }) := by
  simp only [connectLink, Except.bind_eq_ok_iff]
  constructor
  · rintro ⟨s, hs, t, ht, h⟩
    split at h
    · next input hslot =>
      rw [pure_bind] at h
      split at h
      · next output hout =>
        rw [pure_bind] at h
        split at h
        · cases h
        · next htype =>
          cases h
          exact ⟨s, t, input, output, hs, ht, hslot, hout, not_not.1 htype, rfl⟩
      · cases h
    · cases h
  · rintro ⟨s, t, input, output, hs, ht, hslot, hout, htype, rfl⟩
    refine ⟨s, hs, t, ht, ?_⟩
    rw [hslot]
    simp only [pure_bind]
    rw [hout]
    simp only
    rw [if_neg (not_not.2 htype)]
    rfl

/-- What wiring links does to nodes and to what is known of the wiring. -/
structure Wired (ns : List Node) (w : Wiring) (links : List Graph.Link) (ns' : List Node)
    (w' : Wiring) : Prop where
  nodes : ns' = ns.map (Node.attach (links.map (linkWire ns)))
  linked : ∀ r, r ∈ w'.linked ↔ r ∈ w.linked ∨ ∃ l ∈ links, (linkWire ns l).register = r
  length : w'.dependencies.length = w.dependencies.length
  dependencies : ∀ i < w.dependencies.length, ∀ d, d ∈ dependenciesOf w'.dependencies i ↔
    d ∈ dependenciesOf w.dependencies i ∨ ∃ l ∈ links, Connects ns l d i

theorem Wired.nil : Wired ns w [] ns w := by
  refine ⟨?_, by simp, rfl, by simp⟩
  simp only [List.map_nil]
  exact (List.map_id'' (fun n => attach_nil) ns).symm

theorem Wired.trans {first second : List Graph.Link} {ns₁ ns₂ : List Node} {w₁ w₂ : Wiring}
    (h : Wired ns w first ns₁ w₁) (h' : Wired ns₁ w₁ second ns₂ w₂) :
    Wired ns w (first ++ second) ns₂ w₂ := by
  obtain ⟨rfl, hlinked, hlength, hdeps⟩ := h
  obtain ⟨rfl, hlinked', hlength', hdeps'⟩ := h'
  simp only [linkWire_map_attach, connects_map_attach_iff] at hlinked' hdeps'
  refine ⟨?_, ?_, hlength'.trans hlength, ?_⟩
  · rw [List.map_map, linkWire_map_attach, List.map_append]
    exact List.map_congr_left fun n _ => (attach_append _ _).symm
  · intro r
    rw [hlinked', hlinked, or_assoc]
    simp only [List.mem_append, or_and_right, exists_or]
  · intro i hi d
    rw [hdeps' i (hlength ▸ hi), hdeps i hi, or_assoc]
    simp only [List.mem_append, or_and_right, exists_or]

/-- Adding a consumer to an output of one node is attaching a wire to all nodes. -/
theorem modify_addConsumer_eq (hnodup : (ns.map Node.id).Nodup) {s : Nat} {id : NodeId}
    (hs : ns[s]?.map Node.id = some id) (slot : Nat) (r : Register) :
    (ns.modify s fun n => n.addConsumer slot r) = ns.map (Node.attach [⟨id, slot, r⟩]) := by
  apply List.ext_getElem?
  intro p
  rw [List.getElem?_modify, List.getElem?_map]
  cases hp : ns[p]? with
  | none => simp
  | some n =>
      by_cases hsp : s = p
      · have hid : n.id = id := by
          rw [hsp, hp, Option.map_some] at hs
          exact Option.some.inj hs
        simp [hsp, ← hid, attach_singleton]
      · have hsame : n.attach [⟨id, slot, r⟩] = n := by
          refine attach_singleton_of_ne fun hid => hsp ?_
          have hpid : ns[p]?.map Node.id = some id := by
            rw [hp, Option.map_some]
            exact congrArg some hid.symm
          exact eq_of_getElem?_id hnodup hs hpid
        simp [hsp, hsame]

theorem wired_of_connectLink (hnodup : (ns.map Node.id).Nodup)
    (h : connectLink ns w l = .ok (ns', w')) : Fits ns l ∧ Wired ns w [l] ns' w' := by
  obtain ⟨s, t, input, output, hs, ht, hslot, hout, htype, heq⟩ := connectLink_eq_ok_iff.1 h
  obtain ⟨rfl, rfl⟩ := Prod.mk.inj heq
  rw [position?_eq_ok_iff hnodup] at hs ht
  obtain ⟨source, hsource, hsid⟩ := Option.map_eq_some_iff.1 hs
  obtain ⟨target, htarget, htid⟩ := Option.map_eq_some_iff.1 ht
  rw [htarget, Option.bind_some] at hslot
  rw [hsource, Option.bind_some] at hout
  have hregister : slotRegister ns l.toNode l.toSlot.toNat = input.register := by
    rw [slotRegister, ← htid, slotAt?_of_mem hnodup (List.mem_of_getElem? htarget), hslot]
    rfl
  refine ⟨⟨source, List.mem_of_getElem? hsource, target, List.mem_of_getElem? htarget, output,
    input, hsid, htid, hslot, hout, htype⟩, ?_, ?_, ?_, ?_⟩
  · rw [List.map_singleton, linkWire, hregister, modify_addConsumer_eq hnodup hs]
  · intro r
    simp only [List.mem_singleton, exists_eq_left, linkWire, hregister]
    split
    · next hmem =>
      constructor
      · exact Or.inl
      · rintro (hr | rfl)
        · exact hr
        · exact hmem
    · rw [List.mem_append, List.mem_singleton, eq_comm]
  · exact List.length_modify ..
  · intro i hi d
    have hconnects : Connects ns l d i ↔ d = s ∧ t = i := by
      constructor
      · rintro ⟨hd, hi⟩
        exact ⟨eq_of_getElem?_id hnodup hd hs, eq_of_getElem?_id hnodup ht hi⟩
      · rintro ⟨rfl, rfl⟩
        exact ⟨hs, ht⟩
    simp only [List.mem_singleton, exists_eq_left, hconnects, dependenciesOf,
      List.getD_eq_getElem?_getD, List.getElem?_modify, List.getElem?_eq_getElem hi]
    by_cases hti : t = i
    · simp [hti, mem_insertAscending, or_comm]
    · simp [hti]

theorem exists_connectLink (hnodup : (ns.map Node.id).Nodup) (h : Fits ns l) :
    ∃ result, connectLink ns w l = .ok result := by
  obtain ⟨source, hsource, target, htarget, output, input, hsid, htid, hslot, hout, htype⟩ := h
  obtain ⟨s, hs⟩ := List.mem_iff_getElem?.1 hsource
  obtain ⟨t, ht⟩ := List.mem_iff_getElem?.1 htarget
  refine ⟨_, connectLink_eq_ok_iff.2 ⟨s, t, input, output, ?_, ?_, ?_, ?_, htype, rfl⟩⟩
  · rw [position?_eq_ok_iff hnodup, hs, ← hsid]
    rfl
  · rw [position?_eq_ok_iff hnodup, ht, ← htid]
    rfl
  · rw [ht, Option.bind_some, hslot]
  · rw [hs, Option.bind_some, hout]

end

/-! ## Wiring all links -/

/-- Links that are wired fit, and what they say is wired. -/
theorem wired_of_connectFrom {ns ns' : List Node} {w w' : Wiring} {links : List Graph.Link}
    (hnodup : (ns.map Node.id).Nodup) (h : connectFrom ns w links = .ok (ns', w')) :
    (∀ l ∈ links, Fits ns l) ∧ Wired ns w links ns' w' := by
  induction links generalizing ns w with
  | nil =>
      cases h
      exact ⟨by simp, Wired.nil⟩
  | cons l links ih =>
      obtain ⟨⟨ns₁, w₁⟩, hlink, hrest⟩ := Except.bind_eq_ok_iff.1 h
      obtain ⟨hfits, hwired⟩ := wired_of_connectLink hnodup hlink
      have hnodes := hwired.nodes
      subst hnodes
      obtain ⟨hfits', hwired'⟩ := ih (by rwa [map_id_map_attach]) hrest
      refine ⟨List.forall_mem_cons.2 ⟨hfits, fun m hm => ?_⟩, hwired.trans hwired'⟩
      exact fits_map_attach_iff.1 (hfits' m hm)

/-- Links can be wired if and only if each fits. -/
theorem connectFrom_isOk_iff {ns : List Node} {w : Wiring} {links : List Graph.Link}
    (hnodup : (ns.map Node.id).Nodup) :
    (∃ result, connectFrom ns w links = .ok result) ↔ ∀ l ∈ links, Fits ns l := by
  constructor
  · rintro ⟨⟨ns', w'⟩, h⟩
    exact (wired_of_connectFrom hnodup h).1
  · intro hfits
    induction links generalizing ns w with
    | nil => exact ⟨_, rfl⟩
    | cons l links ih =>
        obtain ⟨hl, hlinks⟩ := List.forall_mem_cons.1 hfits
        obtain ⟨⟨ns₁, w₁⟩, hlink⟩ : ∃ result, connectLink ns w l = .ok result :=
          exists_connectLink hnodup hl
        have hnodes := (wired_of_connectLink hnodup hlink).2.nodes
        subst hnodes
        have hnodup' : ((ns.map (Node.attach ([l].map (linkWire ns)))).map Node.id).Nodup := by
          rwa [map_id_map_attach]
        obtain ⟨result, hresult⟩ :=
          @ih _ w₁ hnodup' fun m hm => fits_map_attach_iff.2 (hlinks m hm)
        exact ⟨result, Except.bind_eq_ok_iff.2 ⟨_, hlink, hresult⟩⟩

end Plan

end StepGraph
