import Mathlib.Logic.Relator
import StepGraph.Proofs.Artifact.Reshaping
import StepGraph.Proofs.Comparison.Plan

/-!
# Compilations that mirror each other

Two compilations may give different registers to the inputs of their nodes, and wire the same links
in another order. Let `B` relate the registers of both, one to one. The nodes of the compilations
mirror each other if they run the same steps for the same ids, one for one, with inputs that are
declared as the same and have related registers; and hidden inputs of one name have the same type
and related registers.

Then the links lead to related registers, the same inputs are left for the surface, under the same
names, and the nodes run in the same order. The registers of exported outputs lie beyond all others;
`NodeGraph.Tied` relates those of one output, beside what `B` relates. With that the plans mirror
each other, whichever outputs are exported.
-/

namespace StepGraph

open Plan

theorem exists_getElem?_of_forall₂ {α β : Type*} {r : α → β → Prop} {as : List α} {bs : List β}
    (h : List.Forall₂ r as bs) {k : Nat} {a : α} (ha : as[k]? = some a) :
    ∃ b, bs[k]? = some b ∧ r a b := by
  obtain ⟨hlt, rfl⟩ := List.getElem?_eq_some_iff.1 ha
  have hlt' : k < bs.length := h.length_eq ▸ hlt
  exact ⟨bs[k], List.getElem?_eq_getElem hlt', h.get hlt hlt'⟩

/-- What the one option holds the other one holds too, related to it. -/
theorem optionRel_iff {α β : Type*} {r : α → β → Prop} {x : Option α} {y : Option β} :
    Option.Rel r x y ↔ (∀ a, x = some a → ∃ b, y = some b ∧ r a b) ∧
      ∀ b, y = some b → ∃ a, x = some a ∧ r a b := by
  constructor
  · intro h
    cases h with
    | none => simp
    | some hab => simp [hab]
  · rintro ⟨hleft, hright⟩
    cases x with
    | some a =>
        obtain ⟨b, rfl, hab⟩ := hleft a rfl
        exact Option.Rel.some hab
    | none =>
        cases y with
        | none => exact Option.Rel.none
        | some b =>
            obtain ⟨a, ha, -⟩ := hright b rfl
            cases ha

/-- The registers lie equally far behind the two first ones. -/
def Register.Shifted (start start' r r' : Register) : Prop :=
  ∃ k, r = start.advance k ∧ r' = start'.advance k

/-- The inputs are declared as the same and own one register each, which are related. -/
structure Input.Mirrors (B : Register → Register → Prop) (i i' : Input) : Prop where
  declaration : Input.declaration i = Input.declaration i'
  single : i.registers = [i.register]
  single' : i'.registers = [i'.register]
  register : B i.register i'.register

theorem Input.Mirrors.symm {B : Register → Register → Prop} {i i' : Input} (h : i.Mirrors B i') :
    i'.Mirrors (flip B) i :=
  ⟨h.declaration.symm, h.single', h.single, h.register⟩

theorem Input.Mirrors.typeTag {B : Register → Register → Prop} {i i' : Input}
    (h : i.Mirrors B i') : i.typeTag = i'.typeTag :=
  congrArg (fun e => e.2.2.typeTag) h.declaration

theorem Input.Mirrors.name {B : Register → Register → Prop} {i i' : Input} (h : i.Mirrors B i') :
    i.name = i'.name :=
  congrArg (fun e => e.2.1) h.declaration

namespace Plan

variable {B : Register → Register → Prop}

/-- The nodes run the same step, have the same inputs with related registers, and the same
outputs. -/
structure Node.Mirrors (B : Register → Register → Prop) (n n' : Node) : Prop where
  id : n.id = n'.id
  type : n.type = n'.type
  step : n.step = n'.step
  reads : List.Forall₂ (fun e e' => e.1 = e'.1 ∧ B e.2 e'.2) n.inputMap.entries n'.inputMap.entries
  feeds : List.Forall₂ (Input.Mirrors B) n.feeds n'.feeds
  slots : n.slots.length = n'.slots.length
  outputs : n.outputs = n'.outputs

theorem Node.Mirrors.symm {n n' : Node} (h : n.Mirrors B n') : n'.Mirrors (flip B) n where
  id := h.id.symm
  type := h.type.symm
  step := h.step.symm
  reads := h.reads.flip.imp fun _ _ he => ⟨he.1.symm, he.2⟩
  feeds := h.feeds.flip.imp fun _ _ hi => hi.symm
  slots := h.slots.symm
  outputs := h.outputs.symm

/-- Slots of the same number mirror each other. -/
theorem Node.Mirrors.exists_slot {n n' : Node} (h : n.Mirrors B n') {k : Nat} {i : Input}
    (hi : n.slots[k]? = some i) : ∃ i', n'.slots[k]? = some i' ∧ i.Mirrors B i' := by
  have hk : k < n.slots.length := (List.getElem?_eq_some_iff.1 hi).1
  obtain ⟨i', hfeed', hmirrors⟩ :=
    exists_getElem?_of_forall₂ h.feeds (NodeGraph.getElem?_feeds_of_slot hi)
  rw [Node.feeds, List.getElem?_append_left (h.slots ▸ hk)] at hfeed'
  exact ⟨i', hfeed', hmirrors⟩

namespace NodeGraph

/-- The nodes and the hidden inputs mirror each other, and the registers are related one to one. -/
structure Mirrors (B : Register → Register → Prop) (ng ng' : NodeGraph) : Prop where
  nodes : List.Forall₂ (Node.Mirrors B) ng.nodes ng'.nodes
  hidden : ∀ x, Option.Rel (fun i i' => i.typeTag = i'.typeTag ∧ B i.register i'.register)
    (ng.hidden.find? x) (ng'.hidden.find? x)
  unique : Relator.BiUnique B
  below : ∀ r r', B r r' → r.index < ng.next.index ∧ r'.index < ng'.next.index

variable {catalog : Catalog} {g g' : Graph} {ng ng' : NodeGraph} {options options' : ExportOptions}
  {order order' : List Nat} {p p' : Plan} {r r' : Register}

namespace Mirrors

variable (m : ng.Mirrors B ng')

include m

theorem symm : ng'.Mirrors (flip B) ng where
  nodes := m.nodes.flip.imp fun _ _ hn => hn.symm
  hidden := by
    intro x
    obtain ⟨hleft, hright⟩ := optionRel_iff.1 (m.hidden x)
    refine optionRel_iff.2 ⟨fun i' hi' => ?_, fun i hi => ?_⟩
    · obtain ⟨i, hi, htype, hregister⟩ := hright i' hi'
      exact ⟨i, hi, htype.symm, hregister⟩
    · obtain ⟨i', hi', htype, hregister⟩ := hleft i hi
      exact ⟨i', hi', htype.symm, hregister⟩
  unique := ⟨fun _ _ _ h h' => m.unique.2 h h', fun _ _ _ h h' => m.unique.1 h h'⟩
  below := fun r r' hr => (m.below r' r hr).symm

theorem map_id : ng.nodes.map Node.id = ng'.nodes.map Node.id := by
  exact map_eq_map_iff_forall₂.2 (m.nodes.imp fun _ _ hn => hn.id)

theorem keys_perm : ng.hidden.keys.Perm ng'.hidden.keys := by
  refine (List.perm_ext_iff_of_nodup ng.hidden.nodup_keys ng'.hidden.nodup_keys).2 fun x => ?_
  obtain ⟨hleft, hright⟩ := optionRel_iff.1 (m.hidden x)
  change x ∈ ng.hidden.keys ↔ x ∈ ng'.hidden.keys
  rw [OrderedMap.mem_keys_iff, OrderedMap.mem_keys_iff]
  constructor
  · rintro ⟨i, hi⟩
    obtain ⟨i', hi', -⟩ := hleft i hi
    exact ⟨i', hi'⟩
  · rintro ⟨i', hi'⟩
    obtain ⟨i, hi, -⟩ := hright i' hi'
    exact ⟨i, hi⟩

/-! ## Links -/

theorem fits {l : Graph.Link} (h : Fits ng.nodes l) : Fits ng'.nodes l := by
  obtain ⟨source, hsource, target, htarget, output, input, hsid, htid, hslot, hout, htype⟩ := h
  obtain ⟨source', hsource', hs⟩ := exists_of_mem_forall₂ m.nodes hsource
  obtain ⟨target', htarget', ht⟩ := exists_of_mem_forall₂ m.nodes htarget
  obtain ⟨input', hslot', hinput⟩ := ht.exists_slot hslot
  refine ⟨source', hsource', target', htarget', output, input', hs.id ▸ hsid, ht.id ▸ htid, hslot',
    hs.outputs ▸ hout, ?_⟩
  rw [htype, hinput.typeTag]

theorem connects_iff {l : Graph.Link} {d i : Nat} :
    Connects ng.nodes l d i ↔ Connects ng'.nodes l d i := by
  simp only [Connects, ← List.getElem?_map, m.map_id]

variable (h : ng.Represents catalog g) (h' : ng'.Represents catalog g')

include h h'

/-- A link leads to related registers. -/
theorem register_linkWire {l : Graph.Link} (hfits : Fits ng.nodes l) :
    B (linkWire ng.nodes l).register (linkWire ng'.nodes l).register := by
  obtain ⟨t, ht, i, htid, hslot, hwire⟩ := h.exists_slot_of_fits hfits
  obtain ⟨t', ht', hmirrors⟩ := exists_of_mem_forall₂ m.nodes ht
  obtain ⟨i', hslot', hi⟩ := hmirrors.exists_slot hslot
  have hregister : slotRegister ng'.nodes l.toNode l.toSlot.toNat = i'.register := by
    rw [slotRegister, ← htid, hmirrors.id, slotAt?_of_mem h'.nodup_ids ht', hslot']
    rfl
  rw [hwire, linkWire, hregister]
  exact hi.register

variable (hfits : ∀ l ∈ g.links, Fits ng.nodes l) (hlinks : ∀ l, l ∈ g.links ↔ l ∈ g'.links)

include hfits hlinks

theorem mem_linkWires_of_mem (hr : B r r') {id : NodeId} {k : Nat}
    (hwire : ⟨id, k, r⟩ ∈ ng.linkWires g) : ⟨id, k, r'⟩ ∈ ng'.linkWires g' := by
  obtain ⟨l, hl, heq⟩ := List.mem_map.1 hwire
  have hrelated := m.register_linkWire h h' (hfits l hl)
  rw [heq] at hrelated
  refine List.mem_map.2 ⟨l, (hlinks l).1 hl, ?_⟩
  obtain ⟨rfl, rfl, -⟩ := Wire.mk.inj heq
  rw [m.unique.2 hr hrelated]
  rfl

theorem mem_linkWires_iff (hr : B r r') {id : NodeId} {k : Nat} :
    ⟨id, k, r⟩ ∈ ng.linkWires g ↔ ⟨id, k, r'⟩ ∈ ng'.linkWires g' := by
  refine ⟨m.mem_linkWires_of_mem h h' hfits hlinks hr, ?_⟩
  exact m.symm.mem_linkWires_of_mem h' h (fun l hl => m.fits (hfits l ((hlinks l).2 hl)))
    (fun l => (hlinks l).symm) hr

theorem linked_iff (hr : B r r') :
    r ∈ (ng.linkWires g).map Wire.register ↔ r' ∈ (ng'.linkWires g').map Wire.register := by
  have hmem : ∀ {ws : List Wire} {r : Register},
      r ∈ ws.map Wire.register ↔ ∃ id k, ⟨id, k, r⟩ ∈ ws := by
    intro ws r
    constructor
    · intro hr
      obtain ⟨w, hw, rfl⟩ := List.mem_map.1 hr
      exact ⟨w.source, w.slot, hw⟩
    · rintro ⟨id, k, hw⟩
      exact List.mem_map_of_mem hw
  simp only [hmem, m.mem_linkWires_iff h h' hfits hlinks hr]

/-! ## The surface -/

/-- The same inputs are left. -/
theorem freeInputs : List.Forall₂ (Input.Mirrors B) (ng.freeInputs g) (ng'.freeInputs g') := by
  have hfeeds : List.Forall₂ (Input.Mirrors B) (ng.nodes.flatMap Node.feeds)
      (ng'.nodes.flatMap Node.feeds) :=
    List.rel_flatMap m.nodes fun _ _ hn => hn.feeds
  refine List.rel_filter (fun i i' hi => ?_) hfeeds
  simp only [decide_eq_true_eq, m.linked_iff h h' hfits hlinks hi.register]

/-- They have the same names on the surface. -/
theorem names_eq :
    exportNames ng.hidden.keys ((ng.freeInputs g).map Input.name) =
      exportNames ng'.hidden.keys ((ng'.freeInputs g').map Input.name) := by
  have hnames : (ng.freeInputs g).map Input.name = (ng'.freeInputs g').map Input.name :=
    map_eq_map_iff_forall₂.2 ((m.freeInputs h h' hfits hlinks).imp fun _ _ hi => hi.name)
  rw [hnames]
  exact exportNames_congr m.keys_perm _

omit m h h' hfits hlinks

/-! ## The order -/

theorem order_eq (m : ng.Mirrors B ng') (hlinks : ∀ l, l ∈ g.links ↔ l ∈ g'.links)
    (hc : ng.Compiles g options order p) (hc' : ng'.Compiles g' options' order' p') :
    order = order' := by
  obtain ⟨dependencies, hdeps, hschedule⟩ := hc.scheduled
  obtain ⟨dependencies', hdeps', hschedule'⟩ := hc'.scheduled
  have hsame : ∀ i d, DependsOn dependencies i d ↔ DependsOn dependencies' i d := by
    intro i d
    simp only [hdeps, hdeps', hlinks, m.connects_iff]
  rw [schedule_congr hsame, m.nodes.length_eq, hschedule'] at hschedule
  exact (Except.ok.inj hschedule).symm

end Mirrors

/-! ## What is written -/

/-- Related registers, and the registers of exported outputs that are the same output of the same
node. -/
def Tied (B : Register → Register → Prop) (ng : NodeGraph) (g : Graph) (options : ExportOptions)
    (ng' : NodeGraph) (g' : Graph) (options' : ExportOptions) (r r' : Register) : Prop :=
  B r r' ∨ ∃ x ∈ ng.exports g options, ∃ x' ∈ ng'.exports g' options',
    (x.source = x'.source ∧ x.slot = x'.slot) ∧ x.output.register = r ∧ x'.output.register = r'

theorem Tied.symm (h : Tied B ng g options ng' g' options' r r') :
    Tied (flip B) ng' g' options' ng g options r' r := by
  rcases h with h | ⟨x, hx, x', hx', ⟨hsource, hslot⟩, hr, hr'⟩
  · exact Or.inl h
  · exact Or.inr ⟨x', hx', x, hx, ⟨hsource.symm, hslot.symm⟩, hr', hr⟩

/-- Wires to registers of inputs are those of links. -/
theorem mem_wires_iff_mem_linkWires (hr : r.index < ng.next.index) {id : NodeId} {k : Nat} :
    ⟨id, k, r⟩ ∈ ng.wires g options ↔ ⟨id, k, r⟩ ∈ ng.linkWires g := by
  rw [wires, List.mem_append]
  refine or_iff_left ?_
  intro hexport
  obtain ⟨x, hx, heq⟩ := List.mem_map.1 hexport
  have hle := next_le_of_mem_exports hx
  rw [show x.output.register = r from congrArg Wire.register heq] at hle
  exact absurd hr (Nat.not_lt.2 hle)

theorem Compiles.keys_surface (hc : ng.Compiles g options order p) :
    p.inputs.keys =
      ng.hidden.keys ++ exportNames ng.hidden.keys ((ng.freeInputs g).map Input.name) := by
  rw [OrderedMap.keys, hc.inputs, Entries.keys, List.map_append, List.map_fst_zip]
  · rfl
  · rw [length_exportNames, List.length_map]

theorem Compiles.owns_iff (hc : ng.Compiles g options order p) (h : ng.Represents catalog g)
    {x : String} :
    p.Owns x r ↔ (∃ i, ng.hidden.find? x = some i ∧ i.register = r) ∨
      ∃ (k : Nat) (i : Input),
        (exportNames ng.hidden.keys ((ng.freeInputs g).map Input.name))[k]? = some x ∧
          (ng.freeInputs g)[k]? = some i ∧ i.register = r := by
  have howns : p.Owns x r ↔ ∃ i : Input, (x, i) ∈ p.inputs.entries ∧ i.register = r := by
    simp only [Owns, ← OrderedMap.find?_eq_some_iff]
    refine exists_congr fun i => and_congr_right fun hi => ?_
    rw [hc.registers_eq_singleton h hi, List.mem_singleton, eq_comm]
  rw [howns, hc.inputs]
  simp only [List.mem_append, or_and_right, exists_or, ← OrderedMap.find?_eq_some_iff]
  refine or_congr Iff.rfl ?_
  constructor
  · rintro ⟨i, hmem, hr⟩
    obtain ⟨k, hk⟩ := List.mem_iff_getElem?.1 hmem
    obtain ⟨hname, hfree⟩ := List.getElem?_zip_eq_some.1 hk
    exact ⟨k, i, hname, hfree, hr⟩
  · rintro ⟨k, i, hname, hfree, hr⟩
    exact ⟨i, List.mem_iff_getElem?.2 ⟨k, List.getElem?_zip_eq_some.2 ⟨hname, hfree⟩⟩, hr⟩

theorem Compiles.not_owns_export (hc : ng.Compiles g options order p)
    (h : ng.Represents catalog g) {x : Export} (hx : x ∈ ng.exports g options) {name : String} :
    ¬ p.Owns name x.output.register := by
  intro howns
  have hmem : x.output.register ∈ Surface.registers p.inputs := exists_owns_iff.1 ⟨name, howns⟩
  rw [hc.registers_inputs h] at hmem
  obtain ⟨i, hi, heq⟩ := List.mem_map.1 hmem
  exact h.register_ne_of_export hx (mem_ownedInputs_of_surface hi) heq

namespace Mirrors

/-- Exports of the same output have the same type. -/
theorem typeTag_export (m : ng.Mirrors B ng') (h' : ng'.Represents catalog g') {x x' : Export}
    (hx : x ∈ ng.exports g options) (hx' : x' ∈ ng'.exports g' options')
    (hsource : x.source = x'.source) (hslot : x.slot = x'.slot) :
    x.output.typeTag = x'.output.typeTag := by
  obtain ⟨n, hn, hid, o, ho, htype⟩ := exists_output_of_mem_exports hx
  obtain ⟨n', hn', hid', o', ho', htype'⟩ := exists_output_of_mem_exports hx'
  obtain ⟨n'', hn'', hmirrors⟩ := exists_of_mem_forall₂ m.nodes hn
  have hsame : n''.id = n'.id := by rw [← hmirrors.id, hid, hsource, hid']
  obtain rfl := List.inj_on_of_nodup_map h'.nodup_ids hn'' hn' hsame
  rw [hslot, hmirrors.outputs, ho'] at ho
  rw [← htype, ← htype', Option.some.inj ho]

variable (m : ng.Mirrors B ng') (h : ng.Represents catalog g) (h' : ng'.Represents catalog g')
  (hlinks : ∀ l, l ∈ g.links ↔ l ∈ g'.links)

include m h h' hlinks

/-- The same outputs write to registers that are tied. -/
theorem mem_wires_iff (hfits : ∀ l ∈ g.links, Fits ng.nodes l)
    (hr : Tied B ng g options ng' g' options' r r') {id : NodeId} {k : Nat} :
    ⟨id, k, r⟩ ∈ ng.wires g options ↔ ⟨id, k, r'⟩ ∈ ng'.wires g' options' := by
  rcases hr with hr | ⟨x, hx, x', hx', ⟨hsource, hslot⟩, rfl, rfl⟩
  · rw [mem_wires_iff_mem_linkWires (m.below r r' hr).1,
      mem_wires_iff_mem_linkWires (m.below r r' hr).2]
    exact m.mem_linkWires_iff h h' hfits hlinks hr
  · have hfits' : ∀ l ∈ g'.links, Fits ng'.nodes l :=
      fun l hl => m.fits (hfits l ((hlinks l).2 hl))
    rw [h.mem_wires_iff_of_export hfits hx, h'.mem_wires_iff_of_export hfits' hx', hsource, hslot]

theorem stage (hfits : ∀ l ∈ g.links, Fits ng.nodes l) {n n' : Node} (hn : n ∈ ng.nodes)
    (hn' : n' ∈ ng'.nodes) (hmirrors : n.Mirrors B n') :
    (ng.stage g options n).Mirrors (Tied B ng g options ng' g' options')
      (ng'.stage g' options' n') where
  node := hmirrors.id
  type := hmirrors.type
  step := hmirrors.step
  reads := hmirrors.reads.imp fun _ _ he => ⟨he.1, Or.inl he.2⟩
  writes := by
    intro r r' hr k
    rw [h.writesAt_iff hn, h'.writesAt_iff hn', hmirrors.outputs, hmirrors.id,
      m.mem_wires_iff h h' hlinks hfits hr]

variable (hc : ng.Compiles g options order p) (hc' : ng'.Compiles g' options' order' p')

include hc hc'

theorem stages :
    List.Forall₂ (Stage.Mirrors (Tied B ng g options ng' g' options')) p.stages p'.stages := by
  obtain rfl := m.order_eq hlinks hc hc'
  rw [hc.stages_eq, hc'.stages_eq, List.forall₂_map_left_iff, List.forall₂_map_right_iff]
  have hpick : List.Forall₂ (fun n n' => n ∈ ng.nodes ∧ n' ∈ ng'.nodes ∧ n.Mirrors B n')
      (pick ng.nodes order) (pick ng'.nodes order) := by
    refine forall₂_pick (List.forall₂_iff_get.2 ⟨m.nodes.length_eq, fun k hk hk' => ?_⟩) order
    exact ⟨List.get_mem .., List.get_mem .., m.nodes.get hk hk'⟩
  exact hpick.imp fun n n' hn => m.stage h h' hlinks hc.fits hn.1 hn.2.1 hn.2.2

theorem owns_of_owns (hr : Tied B ng g options ng' g' options' r r') {x : String}
    (howns : p.Owns x r) : p'.Owns x r' := by
  rcases hr with hr | ⟨y, hy, -, -, -, rfl, -⟩
  · rw [hc'.owns_iff h', ← m.names_eq h h' hc.fits hlinks]
    rcases (hc.owns_iff h).1 howns with ⟨i, hi, rfl⟩ | ⟨k, i, hname, hfree, rfl⟩
    · obtain ⟨i', hi', -, hregister⟩ := (optionRel_iff.1 (m.hidden x)).1 i hi
      exact Or.inl ⟨i', hi', m.unique.2 hregister hr⟩
    · obtain ⟨i', hfree', hmirrors⟩ :=
        exists_getElem?_of_forall₂ (m.freeInputs h h' hc.fits hlinks) hfree
      exact Or.inr ⟨k, i', hname, hfree', m.unique.2 hmirrors.register hr⟩
  · exact absurd howns (hc.not_owns_export h hy)

/-- The plans mirror each other, whichever outputs are exported. -/
theorem plan : p.Mirrors (Tied B ng g options ng' g' options') p' where
  stages := m.stages h h' hlinks hc hc'
  keys := by
    intro x
    rw [hc.keys_surface, hc'.keys_surface, m.names_eq h h' hc.fits hlinks, List.mem_append,
      List.mem_append, m.keys_perm.mem_iff]
  owns := by
    refine fun r r' hr x => ⟨m.owns_of_owns h h' hlinks hc hc' hr, ?_⟩
    exact m.symm.owns_of_owns h' h (fun l => (hlinks l).symm) hc' hc hr.symm
  nodup := hc.nodup_registers h
  nodup' := hc'.nodup_registers h'

omit h hlinks

/-- If the same outputs are exported under the same names, they mirror each other. -/
theorem outputs
    (hexports : (ng.exports g options).map (fun x => (x.output.name, x.source, x.slot)) =
      (ng'.exports g' options').map fun x => (x.output.name, x.source, x.slot)) :
    List.Forall₂ (fun o o' => o.name = o'.name ∧ o.typeTag = o'.typeTag ∧
        Tied B ng g options ng' g' options' o.register o'.register ∧
        Register.Shifted ng.next ng'.next o.register o'.register) p.outputs p'.outputs := by
  have hregister : ∀ {ng : NodeGraph} {g : Graph} {options : ExportOptions} {k : Nat}
      (hk : k < (ng.exports g options).length),
      (ng.exports g options)[k].output.register = ng.next.advance k := by
    intro ng g options k hk
    have hmap := congrArg (·[k]?) (@map_register_exports g ng options)
    have hplace : (ng.exports g options)[k].output.register = ⟨ng.next.index + k⟩ := by
      simpa [hk] using hmap
    exact hplace
  rw [hc.outputs, hc'.outputs, List.forall₂_map_left_iff, List.forall₂_map_right_iff]
  rw [map_eq_map_iff_forall₂, List.forall₂_iff_get] at hexports
  refine List.forall₂_iff_get.2 ⟨hexports.1, fun k hk hk' => ?_⟩
  obtain ⟨hname, hplace⟩ := Prod.mk.inj (hexports.2 k hk hk')
  obtain ⟨hsource, hslot⟩ := Prod.mk.inj hplace
  have hx := List.get_mem (ng.exports g options) ⟨k, hk⟩
  have hx' := List.get_mem (ng'.exports g' options') ⟨k, hk'⟩
  refine ⟨hname, m.typeTag_export h' hx hx' hsource hslot, ?_, k, hregister hk, hregister hk'⟩
  exact Or.inr ⟨_, hx, _, hx', ⟨hsource, hslot⟩, rfl, rfl⟩

end Mirrors

end NodeGraph

end Plan

end StepGraph
