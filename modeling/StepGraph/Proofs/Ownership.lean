import StepGraph.Proofs.Topological

/-!
# Who writes and who owns a register

The slots, the value inputs and the hidden inputs of the nodes of a graph own one register each, no
two of them the same one, and all of them come from before the register `ng.next`. The wires of
links lead to registers of slots, those of exported outputs to registers from `ng.next` on, a
different one for each.

A stage of the compiled graph writes to a register if a wire leads there from its node.
-/

namespace StepGraph

/-- If lists have no element twice, not even in two of them, an element is in one of them. -/
theorem eq_of_mem_of_nodup_flatMap {α β : Type*} {as : List α} {f : α → List β}
    (h : (as.flatMap f).Nodup) {a b : α} (ha : a ∈ as) (hb : b ∈ as) {x : β} (hxa : x ∈ f a)
    (hxb : x ∈ f b) : a = b := by
  have : Std.Symm (Function.onFun List.Disjoint f) := ⟨fun _ _ hd => hd.symm⟩
  by_contra hne
  exact (List.nodup_flatMap.1 h).2.forall ha hb hne hxa hxb

theorem Separate.inputs {next : Register} {is : List Input}
    (h : Separate next (is.map Input.registers)) :
    (∀ i ∈ is, i.registers = [i.register]) ∧ (is.map Input.register).Nodup ∧
      ∀ i ∈ is, i.register.index < next.index := by
  have hone : ∀ i ∈ is, i.registers = [i.register] := by
    intro i hi
    obtain ⟨r, hr⟩ := h.single _ (List.mem_map_of_mem hi)
    rw [Input.register, hr]
    rfl
  have hflatten : (is.map Input.registers).flatten = is.map Input.register := by
    rw [List.map_congr_left hone, ← List.flatMap_def, List.map_eq_flatMap]
  refine ⟨hone, hflatten ▸ h.nodup, fun i hi => ?_⟩
  exact h.lt_next _ (List.mem_map_of_mem hi) _ (by simp [hone i hi])

namespace Plan

/-- The link enters the slot that reads from the register. -/
def Targets (ns : List Node) (l : Graph.Link) (r : Register) : Prop :=
  ∃ n ∈ ns, ∃ i, n.id = l.toNode ∧ n.slots[l.toSlot.toNat]? = some i ∧ i.register = r

namespace NodeGraph

/-- All inputs that have a register: the slots and value inputs, and the hidden inputs. -/
def ownedInputs (ng : NodeGraph) : List Input := ng.nodes.flatMap Node.feeds ++ ng.hidden.values

/-- The stage of a node. -/
def stage (ng : NodeGraph) (g : Graph) (options : ExportOptions) (n : Node) : Stage :=
  Stage.ofNode (n.attach (ng.wires g options))

variable {catalog : Catalog} {g : Graph} {ng : NodeGraph} {options : ExportOptions}
  {order : List Nat} {p : Plan} {n m : Node} {i j : Input}

theorem mem_ownedInputs_of_feed (hn : n ∈ ng.nodes) (hi : i ∈ n.feeds) : i ∈ ng.ownedInputs :=
  List.mem_append_left _ (List.mem_flatMap.2 ⟨n, hn, hi⟩)

theorem mem_ownedInputs_of_hidden (hi : i ∈ ng.hidden.values) : i ∈ ng.ownedInputs :=
  List.mem_append_right _ hi

theorem mem_ownedInputs_of_find? {x : String} (hi : ng.hidden.find? x = some i) :
    i ∈ ng.ownedInputs :=
  mem_ownedInputs_of_hidden (List.mem_map_of_mem (OrderedMap.find?_eq_some_iff.1 hi))

theorem getElem?_feeds_of_slot {k : Nat} (h : n.slots[k]? = some i) : n.feeds[k]? = some i := by
  rw [Node.feeds, List.getElem?_append_left (List.getElem?_eq_some_iff.1 h).1, h]

theorem mem_feeds_of_slot {k : Nat} (h : n.slots[k]? = some i) : i ∈ n.feeds :=
  List.mem_append_left _ (List.mem_of_getElem? h)

namespace Represents

variable (h : ng.Represents catalog g)

include h

theorem inputs :
    (∀ i ∈ ng.ownedInputs, i.registers = [i.register]) ∧
      (ng.ownedInputs.map Input.register).Nodup ∧
      ∀ i ∈ ng.ownedInputs, i.register.index < ng.next.index := by
  refine Separate.inputs ?_
  rw [ownedInputs, List.map_append]
  exact h.separate

theorem exists_makes (hn : n ∈ ng.nodes) :
    ∃ v ∈ g.vertices catalog, ∃ start, v.Makes ng.hidden start n := by
  obtain ⟨v, hv, hmakes⟩ := exists_of_mem_forall₂ h.makes.flip hn
  exact ⟨v, (g.arranged_perm catalog).mem_iff.1 hv, hmakes⟩

/-- No register belongs to two nodes, or to two inputs of a node. -/
theorem eq_of_register_eq (hn : n ∈ ng.nodes) (hm : m ∈ ng.nodes) (hi : i ∈ n.feeds)
    (hj : j ∈ m.feeds) (heq : i.register = j.register) : n = m ∧ i = j := by
  have hnodup := h.inputs.2.1
  obtain rfl : i = j := List.inj_on_of_nodup_map hnodup (mem_ownedInputs_of_feed hn hi)
    (mem_ownedInputs_of_feed hm hj) heq
  have hfeeds : (ng.nodes.flatMap Node.feeds).Nodup := (List.nodup_append.1 hnodup.of_map).1
  exact ⟨eq_of_mem_of_nodup_flatMap hfeeds hn hm hi hj, rfl⟩

/-- No hidden input shares its register with a slot or a value input. -/
theorem register_ne (hn : n ∈ ng.nodes) (hi : i ∈ n.feeds) (hj : j ∈ ng.hidden.values) :
    i.register ≠ j.register := by
  have hnodup := h.inputs.2.1
  rw [ownedInputs, List.map_append] at hnodup
  refine (List.nodup_append.1 hnodup).2.2 _ ?_ _ (List.mem_map_of_mem hj)
  exact List.mem_map_of_mem (List.mem_flatMap.2 ⟨n, hn, hi⟩)

/-- The register of a hidden input tells its name. -/
theorem name_eq_of_register_eq {x y : String} (hi : ng.hidden.find? x = some i)
    (hj : ng.hidden.find? y = some j) (heq : i.register = j.register) : x = y := by
  have hnodup : (ng.hidden.entries.map fun e => e.2.register).Nodup := by
    have hsub : ng.hidden.values.Sublist ng.ownedInputs := List.sublist_append_right _ _
    have hvalues := h.inputs.2.1.sublist (hsub.map Input.register)
    rwa [OrderedMap.values, List.map_map] at hvalues
  exact congrArg Prod.fst (List.inj_on_of_nodup_map hnodup (OrderedMap.find?_eq_some_iff.1 hi)
    (OrderedMap.find?_eq_some_iff.1 hj) heq)

/-- No slot and no value input is declared as hidden. -/
theorem group_ne_hidden_of_mem_feeds (hn : n ∈ ng.nodes) (hi : i ∈ n.feeds) :
    i.group ≠ .hidden := by
  obtain ⟨v, -, start, hmakes⟩ := h.exists_makes hn
  have hperm := hmakes.perm_feeds (f := Input.group) fun _ _ => rfl
  obtain ⟨j, hj, hgroup⟩ := List.mem_map.1 (hperm.mem_iff.1 (List.mem_map_of_mem hi))
  have hvisible : Input.declaration j ∈ v.step.schema.visible := by
    rw [← map_declaration_freshInputs start v.step.schema.visible]
    exact List.mem_map_of_mem hj
  rw [← hgroup]
  exact InputSchema.group_ne_hidden_of_mem_visible hvisible

/-- A link leads to the register of its slot. -/
theorem linkWire_eq {l : Graph.Link} (hn : n ∈ ng.nodes) (hid : n.id = l.toNode)
    (hslot : n.slots[l.toSlot.toNat]? = some i) :
    linkWire ng.nodes l = ⟨l.fromNode, l.fromSlot.toNat, i.register⟩ := by
  rw [linkWire, slotRegister, ← hid, slotAt?_of_mem h.nodup_ids hn, hslot]
  rfl

theorem exists_slot_of_fits {l : Graph.Link} (hfits : Fits ng.nodes l) :
    ∃ target ∈ ng.nodes, ∃ input, target.id = l.toNode ∧
      target.slots[l.toSlot.toNat]? = some input ∧
      linkWire ng.nodes l = ⟨l.fromNode, l.fromSlot.toNat, input.register⟩ := by
  obtain ⟨-, -, target, htarget, -, input, -, htid, hslot, -, -⟩ := hfits
  exact ⟨target, htarget, input, htid, hslot, h.linkWire_eq htarget htid hslot⟩

theorem register_linkWire_eq_iff_targets {l : Graph.Link} (hfits : Fits ng.nodes l)
    {r : Register} : (linkWire ng.nodes l).register = r ↔ Targets ng.nodes l r := by
  constructor
  · rintro rfl
    obtain ⟨t, ht, i, htid, hslot, hwire⟩ := h.exists_slot_of_fits hfits
    exact ⟨t, ht, i, htid, hslot, by rw [hwire]⟩
  · rintro ⟨t, ht, i, htid, hslot, rfl⟩
    rw [h.linkWire_eq ht htid hslot]

theorem consumers_eq_nil (hn : n ∈ ng.nodes) {o : Output} (ho : o ∈ n.outputs) :
    o.consumers = [] := by
  obtain ⟨v, -, start, hmakes⟩ := h.exists_makes hn
  rw [hmakes.outputs] at ho
  obtain ⟨spec, -, rfl⟩ := List.mem_map.1 ho
  rfl

/-- A stage writes what the wires say. -/
theorem getElem?_outputs_stage (hn : n ∈ ng.nodes) (k : Nat) :
    (ng.stage g options n).outputs[k]? =
      n.outputs[k]?.map fun _ => wiredFrom (ng.wires g options) n.id k := by
  rw [stage, Stage.ofNode, List.getElem?_map, getElem?_outputs_attach]
  cases ho : n.outputs[k]? with
  | none => rfl
  | some o => simp [h.consumers_eq_nil hn (List.mem_of_getElem? ho)]

end Represents

theorem map_register_exports :
    (ng.exports g options).map (fun x => x.output.register) =
      (List.range' ng.next.index (ng.exports g options).length).map Register.mk := by
  rw [exports, exportsOf, map_register_exportsFrom, length_exportsFrom]

theorem nodup_register_exports :
    ((ng.exports g options).map fun x => x.output.register).Nodup := by
  rw [map_register_exports]
  exact Register.nodup_map_mk_range' _ _

theorem next_le_of_mem_exports {x : Export} (hx : x ∈ ng.exports g options) :
    ng.next.index ≤ x.output.register.index := by
  have hmem : x.output.register ∈ (ng.exports g options).map fun x => x.output.register :=
    List.mem_map_of_mem hx
  rw [map_register_exports] at hmem
  obtain ⟨k, hk, heq⟩ := List.mem_map.1 hmem
  rw [← heq]
  exact (List.mem_range'_1.1 hk).1

/-- What is exported is an output of a node. -/
theorem exists_output_of_mem_exports {x : Export} (hx : x ∈ ng.exports g options) :
    ∃ n ∈ ng.nodes, n.id = x.source ∧ ∃ o, n.outputs[x.slot]? = some o ∧
      o.typeTag = x.output.typeTag := by
  have hplace : (x.source, x.slot, x.output.typeTag) ∈ (ng.exports g options).map
      fun x => (x.source, x.slot, x.output.typeTag) := List.mem_map_of_mem hx
  rw [exports, exportsOf, map_exportsFrom] at hplace
  obtain ⟨s, hs, heq⟩ := List.mem_map.1 hplace
  obtain ⟨n', hn', hs⟩ := List.mem_flatMap.1 hs
  obtain ⟨n, hn, rfl⟩ := List.mem_map.1 hn'
  obtain ⟨j, o', hj, -, rfl⟩ := mem_selectedFrom_iff.1 hs
  obtain ⟨hid, hrest⟩ := Prod.mk.inj heq
  obtain ⟨hslot, htype⟩ := Prod.mk.inj hrest
  rw [getElem?_outputs_attach] at hj
  obtain ⟨o, ho, rfl⟩ := Option.map_eq_some_iff.1 hj
  rw [Nat.zero_add] at hslot
  exact ⟨n, hn, hid, o, hslot ▸ ho, htype⟩

theorem exists_node_of_mem_exports {x : Export} (hx : x ∈ ng.exports g options) :
    ∃ n ∈ ng.nodes, n.id = x.source ∧ x.slot < n.outputs.length := by
  obtain ⟨n, hn, hid, o, ho, -⟩ := exists_output_of_mem_exports hx
  exact ⟨n, hn, hid, (List.getElem?_eq_some_iff.1 ho).1⟩

theorem mem_wires {w : Wire} :
    w ∈ ng.wires g options ↔ (∃ l ∈ g.links, linkWire ng.nodes l = w) ∨
      ∃ x ∈ ng.exports g options, x.wire = w := by
  simp [wires, linkWires]

namespace Compiles

variable (h : ng.Compiles g options order p)

include h

theorem perm_range : order.Perm (List.range ng.nodes.length) := by
  obtain ⟨dependencies, -, hschedule⟩ := h.scheduled
  exact (schedule_isSchedule hschedule).perm

theorem stages_eq : p.stages = (pick ng.nodes order).map (ng.stage g options) := by
  rw [h.stages, pick, List.map_filterMap]
  rfl

theorem pick_nodes_perm : (pick ng.nodes order).Perm ng.nodes := pick_perm h.perm_range

theorem getElem?_pick_nodes (k : Nat) :
    (pick ng.nodes order)[k]? = order[k]?.bind fun i => ng.nodes[i]? := by
  refine getElem?_pick (fun i hi => ?_) k
  exact List.mem_range.1 (h.perm_range.mem_iff.1 hi)

/-- The nodes that a node has links from run before it. -/
theorem lt_of_link {l : Graph.Link} (hl : l ∈ g.links) {a b : Nat}
    (hn : (pick ng.nodes order)[b]? = some n) (hm : (pick ng.nodes order)[a]? = some m)
    (hto : n.id = l.toNode) (hfrom : m.id = l.fromNode) : a < b := by
  obtain ⟨dependencies, hdeps, hschedule⟩ := h.scheduled
  have horder := schedule_isSchedule hschedule
  rw [h.getElem?_pick_nodes] at hn hm
  obtain ⟨t, ht, htn⟩ := Option.bind_eq_some_iff.1 hn
  obtain ⟨s, hs, hsm⟩ := Option.bind_eq_some_iff.1 hm
  have hd : s ∈ dependenciesOf dependencies t := (hdeps t s).2
    ⟨l, hl, by rw [hsm, ← hfrom]; rfl, by rw [htn, ← hto]; rfl⟩
  obtain ⟨hb, htb⟩ := List.getElem?_eq_some_iff.1 ht
  have hbefore : s ∈ order.take b := horder.respects (order.take b) t (order.drop (b + 1)) (by
    rw [← htb, List.cons_getElem_drop_succ, List.take_append_drop]) s hd
  obtain ⟨c, hc, hcs⟩ := List.mem_take_iff_getElem.1 hbefore
  obtain ⟨ha, hsa⟩ := List.getElem?_eq_some_iff.1 hs
  have hac : a = c := (List.Nodup.getElem_inj_iff horder.nodup).1 (hsa.trans hcs.symm)
  omega

end Compiles

end NodeGraph

end Plan

end StepGraph
