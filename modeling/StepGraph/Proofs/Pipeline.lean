import StepGraph.Proofs.Stage.Access

/-!
# Every register is written before it is read, and by one kind of writer

In a compiled graph a register is written by the caller or by stages, never by both. The registers
of the caller are those that the exported inputs own, each owned by one input; the stages that write
to a register run before those that read from it; and the register of an exported output is written
by one output of one stage and read by no stage. A plan with these properties is `Pipelined`.

Merging and renaming inputs afterwards keeps them, because the inputs keep their registers.
-/

namespace StepGraph.Plan

/-- Output number `k` of stage number `i` writes to the register. -/
def Writes (p : Plan) (i k : Nat) (r : Register) : Prop :=
  ∃ s rs, p.stages[i]? = some s ∧ s.outputs[k]? = some rs ∧ r ∈ rs

/-- Stage number `i` reads an argument from the register. -/
def Reads (p : Plan) (i : Nat) (r : Register) : Prop :=
  ∃ s, p.stages[i]? = some s ∧ r ∈ s.inputMap.values

/-- The input exported under the name owns the register. -/
def Owns (p : Plan) (name : String) (r : Register) : Prop :=
  ∃ i, p.inputs.find? name = some i ∧ r ∈ i.registers

/-- Every register has writers of one kind, which come before its readers. -/
structure Pipelined (p : Plan) : Prop where
  nonempty : ∀ i ∈ p.inputs.values, i.registers ≠ []
  nodup : (Surface.registers p.inputs).Nodup
  not_written : ∀ name r, p.Owns name r → ∀ i k, ¬ p.Writes i k r
  read : ∀ i r, p.Reads i r →
    ((∃! name, p.Owns name r) ∧ ¬ ∃ j k, p.Writes j k r) ∨
      ((¬ ∃ name, p.Owns name r) ∧ ∃ j k, p.Writes j k r)
  before : ∀ i r, p.Reads i r → ∀ j k, p.Writes j k r → j < i
  exported : ∀ o ∈ p.outputs, (∃! place : Nat × Nat, p.Writes place.1 place.2 o.register) ∧
    ∀ i, ¬ p.Reads i o.register
  distinct : (p.outputs.map ExportedOutput.register).Nodup

theorem exists_owns_iff {p : Plan} {r : Register} :
    (∃ name, p.Owns name r) ↔ r ∈ Surface.registers p.inputs :=
  Surface.mem_registers_iff.symm

theorem existsUnique_owns {p : Plan} {r : Register} (hnodup : (Surface.registers p.inputs).Nodup)
    (hr : r ∈ Surface.registers p.inputs) : ∃! name, p.Owns name r := by
  obtain ⟨name, hname⟩ := exists_owns_iff.2 hr
  refine ⟨name, hname, ?_⟩
  rintro other ⟨j, hj, hrj⟩
  obtain ⟨i, hi, hri⟩ := hname
  exact Surface.name_eq_of_mem_registers hnodup hj hi hrj hri

namespace NodeGraph

variable {catalog : Catalog} {g : Graph} {ng : NodeGraph} {options : ExportOptions}
  {order : List Nat} {p : Plan} {r : Register}

/-- The stage of a node writes to a register where a wire leads. -/
theorem Represents.writesAt_iff (h : ng.Represents catalog g) {n : Node} (hn : n ∈ ng.nodes)
    {k : Nat} : (ng.stage g options n).WritesAt k r ↔
      k < n.outputs.length ∧ ⟨n.id, k, r⟩ ∈ ng.wires g options := by
  rw [Stage.WritesAt, h.getElem?_outputs_stage hn]
  constructor
  · rintro ⟨rs, hrs, hr⟩
    obtain ⟨o, ho, rfl⟩ := Option.map_eq_some_iff.1 hrs
    exact ⟨(List.getElem?_eq_some_iff.1 ho).1, mem_wiredFrom.1 hr⟩
  · rintro ⟨hk, hr⟩
    rw [List.getElem?_eq_getElem hk]
    exact ⟨_, rfl, mem_wiredFrom.2 hr⟩

theorem Compiles.writes_iff (h : ng.Compiles g options order p)
    (hrepresents : ng.Represents catalog g) {i k : Nat} :
    p.Writes i k r ↔ ∃ n, (pick ng.nodes order)[i]? = some n ∧ k < n.outputs.length ∧
      ⟨n.id, k, r⟩ ∈ ng.wires g options := by
  simp only [Writes, h.stages_eq, List.getElem?_map, Option.map_eq_some_iff]
  constructor
  · rintro ⟨_, rs, ⟨n, hn, rfl⟩, hwrites⟩
    have hmem := h.pick_nodes_perm.mem_iff.1 (List.mem_of_getElem? hn)
    exact ⟨n, hn, (hrepresents.writesAt_iff hmem).1 ⟨rs, hwrites⟩⟩
  · rintro ⟨n, hn, hwire⟩
    have hmem := h.pick_nodes_perm.mem_iff.1 (List.mem_of_getElem? hn)
    obtain ⟨rs, hwrites⟩ := (hrepresents.writesAt_iff hmem).2 hwire
    exact ⟨_, rs, ⟨n, hn, rfl⟩, hwrites⟩

theorem Compiles.reads_iff (h : ng.Compiles g options order p) {i : Nat} :
    p.Reads i r ↔ ∃ n, (pick ng.nodes order)[i]? = some n ∧ r ∈ n.inputMap.values := by
  simp only [Reads, h.stages_eq, List.getElem?_map, Option.map_eq_some_iff]
  constructor
  · rintro ⟨_, ⟨n, hn, rfl⟩, hr⟩
    exact ⟨n, hn, hr⟩
  · rintro ⟨n, hn, hr⟩
    exact ⟨_, ⟨n, hn, rfl⟩, hr⟩

/-- A node reads from registers of its own inputs and of hidden inputs. -/
theorem Represents.exists_input_of_mem_inputMap (h : ng.Represents catalog g) {n : Node}
    (hn : n ∈ ng.nodes) (hr : r ∈ n.inputMap.values) :
    (∃ i ∈ n.feeds, i.register = r) ∨ ∃ i ∈ ng.hidden.values, i.register = r := by
  obtain ⟨v, hv, start, hmakes⟩ := h.exists_makes hn
  rcases hmakes.mem_values_inputMap hr with hfeed | ⟨e, he, rfl⟩
  · exact Or.inl hfeed
  · obtain ⟨i, hi, -⟩ := h.agrees v hv e he
    rw [hiddenRegister_of_find? hi]
    exact Or.inr ⟨i, List.mem_map_of_mem (OrderedMap.find?_eq_some_iff.1 hi), rfl⟩

theorem Compiles.values_inputs (h : ng.Compiles g options order p) :
    p.inputs.values = ng.hidden.values ++ ng.freeInputs g := by
  rw [OrderedMap.values, h.inputs, List.map_append, List.map_snd_zip]
  · rfl
  · simp [length_exportNames]

theorem mem_freeInputs {i : Input} :
    i ∈ ng.freeInputs g ↔
      (∃ n ∈ ng.nodes, i ∈ n.feeds) ∧ i.register ∉ (ng.linkWires g).map Wire.register := by
  rw [freeInputs, openInputs, List.mem_filter, List.mem_flatMap, decide_eq_true_iff]

theorem freeInputs_sublist : (ng.freeInputs g).Sublist (ng.nodes.flatMap Node.feeds) :=
  List.filter_sublist

theorem mem_ownedInputs_of_surface {i : Input} (hi : i ∈ ng.hidden.values ++ ng.freeInputs g) :
    i ∈ ng.ownedInputs := by
  rcases List.mem_append.1 hi with hi | hi
  · exact mem_ownedInputs_of_hidden hi
  · exact List.mem_append_left _ (freeInputs_sublist.mem hi)

theorem Compiles.registers_inputs (h : ng.Compiles g options order p)
    (hrepresents : ng.Represents catalog g) :
    Surface.registers p.inputs = (ng.hidden.values ++ ng.freeInputs g).map Input.register := by
  have hone : ∀ i ∈ ng.hidden.values ++ ng.freeInputs g, i.registers = [i.register] :=
    fun i hi => hrepresents.inputs.1 i (mem_ownedInputs_of_surface hi)
  rw [Surface.registers, h.values_inputs, List.flatMap_def, List.map_congr_left hone,
    ← List.flatMap_def, List.map_eq_flatMap]

theorem Compiles.nodup_registers (h : ng.Compiles g options order p)
    (hrepresents : ng.Represents catalog g) : (Surface.registers p.inputs).Nodup := by
  have hsub : (ng.freeInputs g ++ ng.hidden.values).Sublist ng.ownedInputs :=
    freeInputs_sublist.append_right _
  have hnodup := hrepresents.inputs.2.1.sublist (hsub.map Input.register)
  rw [h.registers_inputs hrepresents]
  exact ((List.perm_append_comm.map Input.register).nodup_iff).1 hnodup

/-- A wire to the register of an input is that of a link to the slot that the input is. -/
theorem Represents.exists_link_of_wire (h : ng.Represents catalog g)
    (hfits : ∀ l ∈ g.links, Fits ng.nodes l) {w : Wire} (hw : w ∈ ng.wires g options) {i : Input}
    (hi : i ∈ ng.ownedInputs) (hr : w.register = i.register) :
    ∃ l ∈ g.links, linkWire ng.nodes l = w ∧
      ∃ n ∈ ng.nodes, n.id = l.toNode ∧ n.slots[l.toSlot.toNat]? = some i := by
  rcases mem_wires.1 hw with ⟨l, hl, rfl⟩ | ⟨x, hx, rfl⟩
  · obtain ⟨n, hn, j, hnid, hslot, hwire⟩ := h.exists_slot_of_fits (hfits l hl)
    have hj : j ∈ ng.ownedInputs := mem_ownedInputs_of_feed hn (mem_feeds_of_slot hslot)
    rw [hwire] at hr
    obtain rfl := List.inj_on_of_nodup_map h.inputs.2.1 hj hi hr
    exact ⟨l, hl, rfl, n, hn, hnid, hslot⟩
  · have hlt := h.inputs.2.2 i hi
    have hle := next_le_of_mem_exports hx
    rw [← hr] at hlt
    exact absurd hlt (Nat.not_lt.2 hle)

/-- No wire leads to a register of the surface. -/
theorem Compiles.not_mem_wires (h : ng.Compiles g options order p)
    (hrepresents : ng.Represents catalog g) (hr : r ∈ Surface.registers p.inputs) {w : Wire}
    (hw : w ∈ ng.wires g options) : w.register ≠ r := by
  rintro rfl
  rw [h.registers_inputs hrepresents] at hr
  obtain ⟨i, hi, hreg⟩ := List.mem_map.1 hr
  rcases List.mem_append.1 hi with hi | hi
  · obtain ⟨l, -, -, n, hn, -, hslot⟩ := hrepresents.exists_link_of_wire h.fits hw
      (mem_ownedInputs_of_hidden hi) hreg.symm
    exact hrepresents.register_ne hn (mem_feeds_of_slot hslot) hi rfl
  · obtain ⟨⟨n, hn, hfeed⟩, hfree⟩ := mem_freeInputs.1 hi
    obtain ⟨l, hl, rfl, -⟩ := hrepresents.exists_link_of_wire h.fits hw
      (mem_ownedInputs_of_feed hn hfeed) hreg.symm
    refine hfree ?_
    rw [hreg]
    exact List.mem_map_of_mem (List.mem_map_of_mem hl)

/-- What a node reads is owned by the surface, or a link leads there. -/
theorem Compiles.mem_registers_or_exists_link (h : ng.Compiles g options order p)
    (hrepresents : ng.Represents catalog g) {n : Node} (hn : n ∈ ng.nodes)
    (hr : r ∈ n.inputMap.values) :
    r ∈ Surface.registers p.inputs ∨ ∃ l ∈ g.links, (linkWire ng.nodes l).register = r := by
  rw [h.registers_inputs hrepresents]
  rcases hrepresents.exists_input_of_mem_inputMap hn hr with ⟨i, hi, rfl⟩ | ⟨i, hi, rfl⟩
  · by_cases hfree : i.register ∈ (ng.linkWires g).map Wire.register
    · right
      simpa [linkWires] using hfree
    · left
      exact List.mem_map_of_mem (List.mem_append_right _ (mem_freeInputs.2 ⟨⟨n, hn, hi⟩, hfree⟩))
  · left
    exact List.mem_map_of_mem (List.mem_append_left _ hi)

theorem Compiles.exists_writes_of_link (h : ng.Compiles g options order p)
    (hrepresents : ng.Represents catalog g) {l : Graph.Link} (hl : l ∈ g.links) :
    ∃ j k, p.Writes j k (linkWire ng.nodes l).register := by
  obtain ⟨source, hsource, -, -, output, -, hsid, -, -, hout, -⟩ := h.fits l hl
  obtain ⟨j, hj⟩ := List.mem_iff_getElem?.1 (h.pick_nodes_perm.mem_iff.2 hsource)
  refine ⟨j, l.fromSlot.toNat, (h.writes_iff hrepresents).2
    ⟨source, hj, (List.getElem?_eq_some_iff.1 hout).1, mem_wires.2 (Or.inl ⟨l, hl, ?_⟩)⟩⟩
  rw [hsid, linkWire]

/-- A wire to a register that a node reads is that of a link to the node. -/
theorem Represents.exists_link_of_mem_inputMap (h : ng.Represents catalog g)
    (hfits : ∀ l ∈ g.links, Fits ng.nodes l) {n : Node} (hn : n ∈ ng.nodes)
    (hr : r ∈ n.inputMap.values) {w : Wire} (hw : w ∈ ng.wires g options) (hwr : w.register = r) :
    ∃ l ∈ g.links, linkWire ng.nodes l = w ∧ l.toNode = n.id := by
  rcases h.exists_input_of_mem_inputMap hn hr with ⟨i, hi, hir⟩ | ⟨i, hi, hir⟩
  · obtain ⟨l, hl, hlink, t, ht, htid, hslot⟩ := h.exists_link_of_wire hfits hw
      (mem_ownedInputs_of_feed hn hi) (hwr.trans hir.symm)
    obtain ⟨rfl, -⟩ := h.eq_of_register_eq hn ht hi (mem_feeds_of_slot hslot) rfl
    exact ⟨l, hl, hlink, htid.symm⟩
  · -- links lead to slots, and no slot is a hidden input
    obtain ⟨l, -, -, t, ht, -, hslot⟩ := h.exists_link_of_wire hfits hw
      (mem_ownedInputs_of_hidden hi) (hwr.trans hir.symm)
    exact absurd rfl (h.register_ne ht (mem_feeds_of_slot hslot) hi)

/-- Who writes to a register that a stage reads runs before it. -/
theorem Compiles.lt_of_writes (h : ng.Compiles g options order p)
    (hrepresents : ng.Represents catalog g) {i j k : Nat} (hreads : p.Reads i r)
    (hwrites : p.Writes j k r) : j < i := by
  obtain ⟨n, hn, hr⟩ := h.reads_iff.1 hreads
  obtain ⟨m, hm, -, hwire⟩ := (h.writes_iff hrepresents).1 hwrites
  have hmem := h.pick_nodes_perm.mem_iff.1 (List.mem_of_getElem? hn)
  obtain ⟨l, hl, hlink, hto⟩ := hrepresents.exists_link_of_mem_inputMap h.fits hmem hr hwire rfl
  exact h.lt_of_link hl hn hm hto.symm (congrArg Wire.source hlink).symm

theorem Represents.register_ne_of_export (h : ng.Represents catalog g) {x : Export}
    (hx : x ∈ ng.exports g options) {i : Input} (hi : i ∈ ng.ownedInputs) :
    i.register ≠ x.output.register := by
  intro heq
  have hlt := h.inputs.2.2 i hi
  rw [heq] at hlt
  exact absurd hlt (Nat.not_lt.2 (next_le_of_mem_exports hx))

/-- The only wire to the register of an exported output is that of the output. -/
theorem Represents.mem_wires_iff_of_export (h : ng.Represents catalog g)
    (hfits : ∀ l ∈ g.links, Fits ng.nodes l) {x : Export} (hx : x ∈ ng.exports g options)
    {id : NodeId} {k : Nat} :
    ⟨id, k, x.output.register⟩ ∈ ng.wires g options ↔ id = x.source ∧ k = x.slot := by
  constructor
  · intro hwire
    rcases mem_wires.1 hwire with ⟨l, hl, hlink⟩ | ⟨y, hy, hyx⟩
    · obtain ⟨t, ht, a, -, ha, hwire'⟩ := h.exists_slot_of_fits (hfits l hl)
      rw [hwire'] at hlink
      exact absurd (congrArg Wire.register hlink) (h.register_ne_of_export hx
        (mem_ownedInputs_of_feed ht (mem_feeds_of_slot ha)))
    · obtain rfl : y = x := List.inj_on_of_nodup_map nodup_register_exports hy hx
        (congrArg Wire.register hyx)
      exact ⟨(congrArg Wire.source hyx).symm, (congrArg Wire.slot hyx).symm⟩
  · rintro ⟨rfl, rfl⟩
    exact mem_wires.2 (Or.inr ⟨x, hx, rfl⟩)

/-- The register of an exported output is written by that output alone, and never read. -/
theorem Compiles.exported (h : ng.Compiles g options order p)
    (hrepresents : ng.Represents catalog g) {x : Export} (hx : x ∈ ng.exports g options) :
    (∃! place : Nat × Nat, p.Writes place.1 place.2 x.output.register) ∧
      ∀ i, ¬ p.Reads i x.output.register := by
  have honly : ∀ id k, ⟨id, k, x.output.register⟩ ∈ ng.wires g options ↔
      id = x.source ∧ k = x.slot := fun _ _ => hrepresents.mem_wires_iff_of_export h.fits hx
  constructor
  · obtain ⟨n, hn, hid, hslot⟩ := exists_node_of_mem_exports hx
    obtain ⟨j, hj⟩ := List.mem_iff_getElem?.1 (h.pick_nodes_perm.mem_iff.2 hn)
    refine ⟨(j, x.slot), (h.writes_iff hrepresents).2 ⟨n, hj, hslot, ?_⟩, ?_⟩
    · exact (honly n.id x.slot).2 ⟨hid, rfl⟩
    · rintro ⟨j', k⟩ hwrites
      obtain ⟨m, hm, -, hwire⟩ := (h.writes_iff hrepresents).1 hwrites
      obtain ⟨hmid, hk⟩ := (honly m.id k).1 hwire
      have hjid : (pick ng.nodes order)[j]?.map Node.id = some x.source := by rw [hj, ← hid]; rfl
      have hj'id : (pick ng.nodes order)[j']?.map Node.id = some x.source := by rw [hm, ← hmid]; rfl
      have hnodup : ((pick ng.nodes order).map Node.id).Nodup :=
        ((h.pick_nodes_perm.map Node.id).nodup_iff).2 hrepresents.nodup_ids
      rw [eq_of_getElem?_id hnodup hj'id hjid, ← hk]
  · intro i hreads
    obtain ⟨n, hn, hr⟩ := h.reads_iff.1 hreads
    have hmem := h.pick_nodes_perm.mem_iff.1 (List.mem_of_getElem? hn)
    rcases hrepresents.exists_input_of_mem_inputMap hmem hr with ⟨a, ha, heq⟩ | ⟨a, ha, heq⟩
    · exact hrepresents.register_ne_of_export hx (mem_ownedInputs_of_feed hmem ha) heq
    · exact hrepresents.register_ne_of_export hx (mem_ownedInputs_of_hidden ha) heq

/-- A plan whose stages and outputs are those of a compiled graph, and whose inputs have kept their
registers, is pipelined. -/
theorem Compiles.pipelined (h : ng.Compiles g options order p)
    (hrepresents : ng.Represents catalog g) {p' : Plan} (hstages : p'.stages = p.stages)
    (houtputs : p'.outputs = p.outputs) (hkeeps : Surface.Keeps p.inputs p'.inputs) :
    p'.Pipelined := by
  have hwrites : ∀ {i k r}, p'.Writes i k r ↔ p.Writes i k r := by simp [Writes, hstages]
  have hreads : ∀ {i r}, p'.Reads i r ↔ p.Reads i r := by simp [Reads, hstages]
  have hnodup : (Surface.registers p'.inputs).Nodup :=
    hkeeps.perm.nodup_iff.2 (h.nodup_registers hrepresents)
  have hunwritten : ∀ {r}, r ∈ Surface.registers p'.inputs → ∀ i k, ¬ p.Writes i k r := by
    intro r hr i k hw
    obtain ⟨n, -, -, hwire⟩ := (h.writes_iff hrepresents).1 hw
    exact h.not_mem_wires hrepresents (hkeeps.perm.mem_iff.1 hr) hwire rfl
  refine ⟨hkeeps.nonempty ?_, hnodup, ?_, ?_, ?_, ?_, ?_⟩
  · intro i hi
    rw [h.values_inputs] at hi
    simp [hrepresents.inputs.1 i (mem_ownedInputs_of_surface hi)]
  · intro name r hr i k hw
    exact hunwritten (exists_owns_iff.1 ⟨name, hr⟩) i k (hwrites.1 hw)
  · intro i r hr
    obtain ⟨n, hn, hmap⟩ := h.reads_iff.1 (hreads.1 hr)
    have hmem := h.pick_nodes_perm.mem_iff.1 (List.mem_of_getElem? hn)
    rcases h.mem_registers_or_exists_link hrepresents hmem hmap with hown | ⟨l, hl, rfl⟩
    · have hr' := hkeeps.perm.mem_iff.2 hown
      refine Or.inl ⟨existsUnique_owns hnodup hr', ?_⟩
      rintro ⟨j, k, hw⟩
      exact hunwritten hr' j k (hwrites.1 hw)
    · obtain ⟨j, k, hw⟩ := h.exists_writes_of_link hrepresents hl
      refine Or.inr ⟨fun hown => ?_, j, k, hwrites.2 hw⟩
      exact hunwritten (exists_owns_iff.1 hown) j k hw
  · intro i r hr j k hw
    exact h.lt_of_writes hrepresents (hreads.1 hr) (hwrites.1 hw)
  · intro o ho
    rw [houtputs, h.outputs] at ho
    obtain ⟨x, hx, rfl⟩ := List.mem_map.1 ho
    simpa only [hwrites, hreads] using h.exported hrepresents hx
  · rw [houtputs, h.outputs, List.map_map]
    exact nodup_register_exports

end NodeGraph

/-- Compiled graphs are pipelined, whatever merges and renamings of their inputs follow. -/
theorem compiled_pipelined (start : Register) (catalog : Catalog) (g : Graph)
    (options : ExportOptions) (p : Plan) (h : compileFrom start catalog g options = .ok p)
    (rs : List Reshaping) : (p.reshapeAll rs).Pipelined := by
  obtain ⟨ng, order, -, hrepresents, hcompiles⟩ := compiles_of_compileFrom_eq_ok h
  obtain ⟨hstages, houtputs, hkeeps⟩ := p.reshapeAll_keeps rs
  exact hcompiles.pipelined hrepresents hstages houtputs hkeeps

/-- The values of two relays become one, which gets another name. -/
def relayReshapings : List Reshaping :=
  [.merge (.ofList [("value", ["context", "value_2", "value_3"])]),
    .rename (.ofList [("value", "start")])]

theorem relays_pipelined :
    ∃ p, compileFrom .first relayCatalog relayGraph .default = .ok p ∧
      (p.reshapeAll relayReshapings).Pipelined :=
  ⟨_, rfl, compiled_pipelined .first relayCatalog relayGraph .default _ rfl relayReshapings⟩

end StepGraph.Plan
