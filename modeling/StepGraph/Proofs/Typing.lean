import StepGraph.Proofs.Pipeline

/-!
# No value reaches an argument of another type

Types are checked where a link is wired, where hidden inputs are shared and where inputs are merged.
Together the checks see to it that every register has one type: the input that it belongs to is
declared with this type, and so are the outputs that write to it, for a link or for an exported
output, and the exported input that hands it the value of a caller. A plan with these properties is
`WellTyped`. Merging and renaming inputs keeps them, because registers move between inputs of one
type only.
-/

namespace StepGraph

/-- The declaration that an argument of a step goes by: the last one of its name. -/
def InputSchema.declaration? (s : InputSchema) (name : String) :
    Option (InputGroup × String × InputSpec) :=
  (s.entries.filter fun e => e.2.1 = name).getLast?

namespace Plan

/-- The registers of the plan connect what has one type. The nodes are those whose stages the plan
has, and the hidden inputs those that they share. -/
structure WellTyped (nodes : List Node) (hidden : InputMap) (p : Plan) : Prop where
  stages : p.stages.Perm (nodes.map Stage.ofNode)
  /-- An output writes to slots and exported outputs of its type, and to nothing else. -/
  consumers : ∀ n ∈ nodes, ∀ o ∈ n.outputs, ∀ r ∈ o.consumers,
    (∃ m ∈ nodes, ∃ i ∈ m.slots, i.register = r ∧ i.typeTag = o.typeTag) ∨
      ∃ x ∈ p.outputs, x.register = r ∧ x.typeTag = o.typeTag
  /-- An exported input owns registers of slots, value inputs and hidden inputs of its type, and no
  others. -/
  owned : ∀ i ∈ p.inputs.values, ∀ r ∈ i.registers,
    (∃ n ∈ nodes, ∃ j ∈ n.slots ++ n.inputs, j.register = r ∧ j.typeTag = i.typeTag) ∨
      ∃ j ∈ hidden.values, j.register = r ∧ j.typeTag = i.typeTag
  /-- The slots and value inputs of a node have the types that its step declares. -/
  declared : ∀ n ∈ nodes, ∀ i ∈ n.slots ++ n.inputs,
    ∃ e ∈ n.step.schema.visible, e.2.1 = i.name ∧ e.2.2.typeTag = i.typeTag
  /-- A hidden input has the type that every step declares for its name. -/
  shared : ∀ n ∈ nodes, ∀ e ∈ n.step.schema.hidden.entries,
    ∃ j, hidden.find? e.1 = some j ∧ j.typeTag = e.2.typeTag
  /-- The outputs of a node have the types that its step declares. -/
  returned : ∀ n ∈ nodes, n.outputs.map Output.typeTag = n.step.outputs.map OutputSpec.typeTag
  /-- Exported inputs and outputs of stages that reach an argument have the type that the step
  declares for it. -/
  arguments : ∀ s ∈ p.stages, ∀ x r, s.inputMap.find? x = some r →
    ∃ e, s.step.schema.declaration? x = some e ∧
      (∀ i ∈ p.inputs.values, r ∈ i.registers → i.typeTag = e.2.2.typeTag) ∧
      ∀ t ∈ p.stages, ∀ k : Nat, t.WritesAt k r →
        ∃ o, t.step.outputs[k]? = some o ∧ o.typeTag = e.2.2.typeTag

end Plan

/-! ## What an argument is read from -/

theorem forall₂_getLast? {α β : Type*} {R : α → β → Prop} {as : List α} {bs : List β}
    (h : List.Forall₂ R as bs) : Option.Rel R as.getLast? bs.getLast? := by
  induction h with
  | nil => exact .none
  | cons hab _ ih =>
      rw [List.getLast?_cons, List.getLast?_cons]
      generalize List.getLast? _ = a? at ih ⊢
      generalize List.getLast? _ = b? at ih ⊢
      cases ih with
      | none => exact .some hab
      | some hlast => exact .some hlast

namespace Vertex

variable {hidden : InputMap} {start : Register} {v : Vertex} {n : Plan.Node} {x : String}
  {r : Register}

open Plan

/-- The argument has the name of the declaration, and its register belongs to an input of the
declared type. -/
def Binds (hidden : InputMap) (n : Node) (e : InputGroup × String × InputSpec)
    (argument : String × Register) : Prop :=
  e.2.1 = argument.1 ∧
    ∃ i ∈ n.feeds ++ hidden.values, i.register = argument.2 ∧ i.typeTag = e.2.2.typeTag

theorem Makes.binds_visible (h : v.Makes hidden start n) :
    List.Forall₂ (Binds hidden n) v.step.schema.visible
      ((freshInputs start v.step.schema.visible).map fun i => (i.name, i.register)) := by
  have hperm := h.perm_feeds (f := fun i => (i.register, i.typeTag)) fun _ _ => rfl
  rw [← congrArg (List.Forall₂ (Binds hidden n) · _) (map_declaration_freshInputs start _),
    List.forall₂_map_left_iff, List.forall₂_map_right_iff, List.forall₂_same]
  intro i hi
  obtain ⟨j, hj, heq⟩ := List.mem_map.1 (hperm.mem_iff.2 (List.mem_map_of_mem hi))
  obtain ⟨hregister, htype⟩ := Prod.mk.inj heq
  exact ⟨rfl, j, List.mem_append_left _ hj, hregister, htype⟩

theorem binds_hidden {hs : List (String × InputSpec)}
    (hagrees : ∀ e ∈ hs, ∃ i, hidden.find? e.1 = some i ∧ i.typeTag = e.2.typeTag) :
    List.Forall₂ (Binds hidden n) (hs.map fun e => (.hidden, e))
      (hs.map fun e => (e.1, hiddenRegister hidden e.1)) := by
  rw [List.forall₂_map_left_iff, List.forall₂_map_right_iff, List.forall₂_same]
  intro e he
  obtain ⟨i, hi, htype⟩ := hagrees e he
  have hmem : i ∈ hidden.values := List.mem_map_of_mem (OrderedMap.find?_eq_some_iff.1 hi)
  exact ⟨rfl, i, List.mem_append_right _ hmem, (hiddenRegister_of_find? hi).symm, htype⟩

/-- An argument is read from the register of an input of the type that the argument is declared
with. -/
theorem Makes.exists_input (h : v.Makes hidden start n)
    (hagrees : ∀ e ∈ v.step.schema.hidden.entries,
      ∃ i, hidden.find? e.1 = some i ∧ i.typeTag = e.2.typeTag)
    (hx : n.inputMap.find? x = some r) :
    ∃ e, n.step.schema.declaration? x = some e ∧
      ∃ i ∈ n.feeds ++ hidden.values, i.register = r ∧ i.typeTag = e.2.2.typeTag := by
  rw [h.inputMap, argumentMap, OrderedMap.find?_ofList] at hx
  obtain ⟨argument, hargument, rfl⟩ := Option.map_eq_some_iff.1 hx
  have hbinds := List.rel_append h.binds_visible (binds_hidden hagrees)
  -- the last declaration of the name is the one whose register is in the map
  have hnamed := List.rel_filter (p := fun e => e.2.1 = x) (q := fun a => a.1 = x)
    (fun e a ha => by simp [ha.1]) hbinds
  have hlast : Option.Rel (Binds hidden n) (v.step.schema.declaration? x) (some argument) :=
    hargument ▸ forall₂_getLast? hnamed
  rw [h.step]
  generalize v.step.schema.declaration? x = e? at hlast
  cases hlast with
  | some hbound => exact ⟨_, rfl, hbound.2⟩

end Vertex

namespace Plan

namespace NodeGraph

variable {catalog : Catalog} {g : Graph} {ng : NodeGraph} {options : ExportOptions}
  {order : List Nat} {p : Plan} {n : Node} {r : Register}

/-- The nodes with their links wired and their outputs exported. -/
def wiredNodes (ng : NodeGraph) (g : Graph) (options : ExportOptions) : List Node :=
  ng.nodes.map (Node.attach (ng.wires g options))

theorem Represents.exportOutputs_eq_wiredNodes (h : ng.Represents catalog g) :
    (exportOutputs options ng.next (ng.nodes.map (Node.attach (ng.linkWires g)))).1 =
      ng.wiredNodes g options := by
  have hnodup : ((ng.nodes.map (Node.attach (ng.linkWires g))).map Node.id).Nodup := by
    rw [map_id_map_attach]
    exact h.nodup_ids
  rw [exportOutputs_eq hnodup, wiredNodes, wires, List.map_map]
  exact List.map_congr_left fun n _ => (attach_append _ _).symm

/-! ## Wires connect what has one type -/

/-- A wire leads from an output to a slot or to an exported output of its type. -/
theorem Represents.slot_or_export_of_wire (h : ng.Represents catalog g)
    (hfits : ∀ l ∈ g.links, Fits ng.nodes l) (hn : n ∈ ng.nodes) {k : Nat} {o : Output}
    (ho : n.outputs[k]? = some o) (hw : ⟨n.id, k, r⟩ ∈ ng.wires g options) :
    (∃ m ∈ ng.nodes, ∃ i ∈ m.slots, i.register = r ∧ i.typeTag = o.typeTag) ∨
      ∃ x ∈ ng.exports g options, x.output.register = r ∧ x.output.typeTag = o.typeTag := by
  have hsame : ∀ m ∈ ng.nodes, m.id = n.id → m = n := fun m hm hid =>
    List.inj_on_of_nodup_map h.nodup_ids hm hn hid
  rcases mem_wires.1 hw with ⟨l, hl, hwire⟩ | ⟨x, hx, hwire⟩
  · obtain ⟨source, hsource, target, htarget, output, i, hsid, htid, hslot, hout, htype⟩ :=
      hfits l hl
    obtain rfl := hsame source hsource (hsid.trans (congrArg Wire.source hwire))
    have hk : l.fromSlot.toNat = k := congrArg Wire.slot hwire
    rw [hk, ho] at hout
    cases hout
    rw [h.linkWire_eq htarget htid hslot] at hwire
    exact Or.inl ⟨target, htarget, i, List.mem_of_getElem? hslot, congrArg Wire.register hwire,
      htype.symm⟩
  · obtain ⟨source, hsource, hsid, output, hout, htype⟩ := exists_output_of_mem_exports hx
    obtain rfl := hsame source hsource (hsid.trans (congrArg Wire.source hwire))
    have hk : x.slot = k := congrArg Wire.slot hwire
    rw [hk, ho] at hout
    cases hout
    exact Or.inr ⟨x, hx, congrArg Wire.register hwire, htype.symm⟩

/-- What is written to the register of an input has the type of the input. -/
theorem Represents.typeTag_of_wire (h : ng.Represents catalog g)
    (hfits : ∀ l ∈ g.links, Fits ng.nodes l) {i : Input} (hi : i ∈ ng.ownedInputs)
    (hn : n ∈ ng.nodes) {k : Nat} {o : Output} (ho : n.outputs[k]? = some o)
    (hw : ⟨n.id, k, i.register⟩ ∈ ng.wires g options) : o.typeTag = i.typeTag := by
  rcases h.slot_or_export_of_wire hfits hn ho hw with ⟨m, hm, j, hj, hreg, htype⟩ | ⟨x, hx, hreg, -⟩
  · have howned : j ∈ ng.ownedInputs :=
      mem_ownedInputs_of_feed hm (List.mem_append_left _ hj)
    obtain rfl := List.inj_on_of_nodup_map h.inputs.2.1 howned hi hreg
    exact htype.symm
  · exact absurd hreg.symm (h.register_ne_of_export hx hi)

/-! ## The surface owns registers of its types -/

/-- The register belongs to an input of the type. -/
def BelongsTo (ng : NodeGraph) (r : Register) (typeTag : String) : Prop :=
  ∃ i ∈ ng.ownedInputs, i.register = r ∧ i.typeTag = typeTag

theorem Compiles.typed_inputs (h : ng.Compiles g options order p)
    (hrepresents : ng.Represents catalog g) : Surface.Typed ng.BelongsTo p.inputs := by
  intro i hi r hr
  rw [h.values_inputs] at hi
  have howned := mem_ownedInputs_of_surface hi
  rw [hrepresents.inputs.1 i howned, List.mem_singleton] at hr
  exact ⟨i, howned, hr.symm, rfl⟩

/-- What a stage reads an argument from belongs to an input of the type of the argument. -/
theorem Represents.exists_declaration (h : ng.Represents catalog g) (hn : n ∈ ng.nodes)
    {x : String} (hx : n.inputMap.find? x = some r) :
    ∃ e, n.step.schema.declaration? x = some e ∧ ng.BelongsTo r e.2.2.typeTag := by
  obtain ⟨v, hv, start, hmakes⟩ := h.exists_makes hn
  obtain ⟨e, he, i, hi, hreg, htype⟩ := hmakes.exists_input (h.agrees v hv) hx
  refine ⟨e, he, i, ?_, hreg, htype⟩
  rcases List.mem_append.1 hi with hi | hi
  · exact mem_ownedInputs_of_feed hn hi
  · exact mem_ownedInputs_of_hidden hi

/-- A register belongs to one type. -/
theorem Represents.eq_of_belongsTo (h : ng.Represents catalog g) {t t' : String}
    (ht : ng.BelongsTo r t) (ht' : ng.BelongsTo r t') : t = t' := by
  obtain ⟨i, hi, hr, rfl⟩ := ht
  obtain ⟨j, hj, hr', rfl⟩ := ht'
  rw [List.inj_on_of_nodup_map h.inputs.2.1 hi hj (hr.trans hr'.symm)]

/-- What a stage writes to a register of an input has the type of the input. -/
theorem Represents.exists_output_of_writesAt (h : ng.Represents catalog g)
    (hfits : ∀ l ∈ g.links, Fits ng.nodes l) {t : String} (ht : ng.BelongsTo r t)
    (hn : n ∈ ng.nodes) {k : Nat} (hwrites : (ng.stage g options n).WritesAt k r) :
    ∃ o, n.step.outputs[k]? = some o ∧ o.typeTag = t := by
  obtain ⟨i, hi, rfl, rfl⟩ := ht
  obtain ⟨hk, hwire⟩ := (h.writesAt_iff hn).1 hwrites
  have ho : n.outputs[k]? = some n.outputs[k] := List.getElem?_eq_getElem hk
  have htype := h.typeTag_of_wire hfits hi hn ho hwire
  obtain ⟨v, -, start, hmakes⟩ := h.exists_makes hn
  have hspec := hmakes.map_typeTag_getElem?_outputs k
  rw [ho, Option.map_some, htype, ← hmakes.step] at hspec
  obtain ⟨o, ho, htag⟩ := Option.map_eq_some_iff.1 hspec.symm
  exact ⟨o, ho, htag⟩

/-! ## Compiled graphs are well typed -/

/-- What an output of a wired node writes to is where a wire leads from there. -/
theorem Represents.exists_of_mem_outputs_attach (h : ng.Represents catalog g) (hn : n ∈ ng.nodes)
    {o : Output} (ho : o ∈ (n.attach (ng.wires g options)).outputs) :
    ∃ k made, n.outputs[k]? = some made ∧ made.typeTag = o.typeTag ∧
      ∀ r ∈ o.consumers, ⟨n.id, k, r⟩ ∈ ng.wires g options := by
  obtain ⟨k, hk⟩ := List.mem_iff_getElem?.1 ho
  rw [getElem?_outputs_attach] at hk
  obtain ⟨made, hmade, rfl⟩ := Option.map_eq_some_iff.1 hk
  refine ⟨k, made, hmade, rfl, fun r hr => ?_⟩
  rw [h.consumers_eq_nil hn (List.mem_of_getElem? hmade), List.nil_append] at hr
  exact mem_wiredFrom.1 hr

theorem map_typeTag_outputs_attach (ws : List Wire) :
    (n.attach ws).outputs.map Output.typeTag = n.outputs.map Output.typeTag := by
  refine List.ext_getElem? fun k => ?_
  simp [getElem?_outputs_attach, Function.comp_def]

theorem Represents.declared (h : ng.Represents catalog g) (hn : n ∈ ng.nodes) {i : Input}
    (hi : i ∈ n.feeds) :
    ∃ e ∈ n.step.schema.visible, e.2.1 = i.name ∧ e.2.2.typeTag = i.typeTag := by
  obtain ⟨v, -, start, hmakes⟩ := h.exists_makes hn
  have hperm := hmakes.perm_feeds (f := fun i => (i.name, i.typeTag)) fun _ _ => rfl
  obtain ⟨j, hj, heq⟩ := List.mem_map.1 (hperm.mem_iff.1 (List.mem_map_of_mem hi))
  obtain ⟨hname, htype⟩ := Prod.mk.inj heq
  have hmem : Input.declaration j ∈ (freshInputs start v.step.schema.visible).map
      Input.declaration := List.mem_map_of_mem hj
  rw [map_declaration_freshInputs, ← hmakes.step] at hmem
  exact ⟨Input.declaration j, hmem, hname, htype⟩

theorem Compiles.wellTyped (h : ng.Compiles g options order p)
    (hrepresents : ng.Represents catalog g) {p' : Plan} (hstages : p'.stages = p.stages)
    (houtputs : p'.outputs = p.outputs) (hmoves : Surface.Moves p.inputs p'.inputs) :
    WellTyped (ng.wiredNodes g options) ng.hidden p' := by
  have hperm : p'.stages.Perm (ng.nodes.map (ng.stage g options)) := by
    rw [hstages, h.stages_eq]
    exact h.pick_nodes_perm.map _
  have hsurface : Surface.Typed ng.BelongsTo p'.inputs := hmoves.typed (h.typed_inputs hrepresents)
  have hstage : ∀ s ∈ p'.stages, ∃ n ∈ ng.nodes, s = ng.stage g options n := by
    intro s hs
    obtain ⟨n, hn, rfl⟩ := List.mem_map.1 (hperm.mem_iff.1 hs)
    exact ⟨n, hn, rfl⟩
  constructor
  case stages => rwa [wiredNodes, List.map_map]
  case consumers =>
    refine List.forall_mem_map.2 fun n hn o ho r hr => ?_
    obtain ⟨k, made, hmade, htype, hwires⟩ := hrepresents.exists_of_mem_outputs_attach hn ho
    rw [houtputs, h.outputs, ← htype]
    rcases hrepresents.slot_or_export_of_wire h.fits hn hmade (hwires r hr) with
      ⟨m, hm, hslot⟩ | ⟨x, hx, hreg⟩
    · exact Or.inl ⟨m.attach _, List.mem_map_of_mem hm, hslot⟩
    · exact Or.inr ⟨x.output, List.mem_map_of_mem hx, hreg⟩
  case owned =>
    intro i hi r hr
    obtain ⟨j, hj, hreg⟩ := hsurface i hi r hr
    rcases List.mem_append.1 hj with hj | hj
    · obtain ⟨n, hn, hj⟩ := List.mem_flatMap.1 hj
      exact Or.inl ⟨n.attach _, List.mem_map_of_mem hn, j, hj, hreg⟩
    · exact Or.inr ⟨j, hj, hreg⟩
  case declared => exact List.forall_mem_map.2 fun n hn i hi => hrepresents.declared hn hi
  case shared =>
    refine List.forall_mem_map.2 fun n hn e he => ?_
    obtain ⟨v, hv, start, hmakes⟩ := hrepresents.exists_makes hn
    exact hrepresents.agrees v hv e (hmakes.step ▸ he)
  case returned =>
    refine List.forall_mem_map.2 fun n hn => ?_
    obtain ⟨v, -, start, hmakes⟩ := hrepresents.exists_makes hn
    rw [map_typeTag_outputs_attach, hmakes.outputs, List.map_map]
    exact congrArg (fun step => step.outputs.map OutputSpec.typeTag) hmakes.step.symm
  case arguments =>
    intro s hs x r hx
    obtain ⟨n, hn, rfl⟩ := hstage s hs
    obtain ⟨e, he, hr⟩ := hrepresents.exists_declaration hn hx
    refine ⟨e, he, fun i hi hri => ?_, fun t ht k hwrites => ?_⟩
    · exact hrepresents.eq_of_belongsTo (hsurface i hi r hri) hr
    · obtain ⟨m, hm, rfl⟩ := hstage t ht
      exact hrepresents.exists_output_of_writesAt h.fits hr hm hwrites

end NodeGraph

/-- Compiled graphs are well typed, whatever merges and renamings of their inputs follow. -/
theorem compiled_well_typed (start : Register) (catalog : Catalog) (g : Graph)
    (options : ExportOptions) (p : Plan) (h : compileFrom start catalog g options = .ok p)
    (rs : List Reshaping) :
    ∃ created wired wiring, createNodes catalog start g.nodes = .ok created ∧
      connectLinks g.links created.nodes = .ok (wired, wiring) ∧
      WellTyped (exportOutputs options created.next wired).1 created.hidden (p.reshapeAll rs) := by
  obtain ⟨ng, order, hcreate, hrepresents, hcompiles⟩ := compiles_of_compileFrom_eq_ok h
  obtain ⟨⟨wired, wiring⟩, hconnect⟩ :=
    (connectFrom_isOk_iff (w := .empty ng.nodes.length) hrepresents.nodup_ids).2 hcompiles.fits
  obtain ⟨-, hwired⟩ := wired_of_connectFrom hrepresents.nodup_ids hconnect
  obtain ⟨hstages, houtputs, hmoves⟩ := p.reshapeAll_moves rs
  refine ⟨ng, wired, wiring, hcreate, hconnect, ?_⟩
  have hnodes : wired = ng.nodes.map (Node.attach (ng.linkWires g)) := hwired.nodes
  rw [hnodes, hrepresents.exportOutputs_eq_wiredNodes]
  exact hcompiles.wellTyped hrepresents hstages houtputs hmoves

theorem relays_well_typed :
    ∃ p created wired wiring, compileFrom .first relayCatalog relayGraph .default = .ok p ∧
      createNodes relayCatalog .first relayGraph.nodes = .ok created ∧
      connectLinks relayGraph.links created.nodes = .ok (wired, wiring) ∧
      WellTyped (exportOutputs .default created.next wired).1 created.hidden
        (p.reshapeAll relayReshapings) := by
  obtain ⟨created, wired, wiring, h⟩ :=
    compiled_well_typed .first relayCatalog relayGraph .default _ rfl relayReshapings
  exact ⟨_, created, wired, wiring, rfl, h⟩

end Plan

end StepGraph
