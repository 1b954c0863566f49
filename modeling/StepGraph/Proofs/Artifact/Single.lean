import StepGraph.Proofs.Artifact.Schema

/-!
# Graphs of one node

A graph of one node, with neither slots nor values nor links, is compiled into a plan that runs the
step of the node and no other: `Plan.RunsOnly` says so. If the step gives every input and every
output a name of its own, the surface of the plan is that of the step: the inputs are those that the
step declares, hidden ones first, and the outputs are its outputs in their order.
-/

namespace StepGraph

open Plan

namespace Plan

/-- The plan has one stage, and its surface is that of the step: each input is read from its own
register, and each output is written to its own. -/
structure RunsOnly (p : Plan) (g : Stage) : Prop where
  stages : p.stages = [g]
  isOutputNode : p.isOutputNode = g.step.isOutputNode
  inputs : p.inputs.entries.map Surface.declaration =
    g.step.schema.hidden.entries.map (fun e => (.hidden, e)) ++ g.step.schema.visible
  outputs : p.outputs.map (fun o => (⟨o.typeTag, o.name⟩ : OutputSpec)) = g.step.outputs
  reads : g.inputMap.entries.Perm (p.inputs.entries.map fun e => (e.1, e.2.register))
  writes : g.outputs = p.outputs.map fun o => [o.register]

/-- Inputs by their own names. -/
def Input.named (i : Input) : String × Input := (i.name, i)

theorem map_declaration_named (r : Register) (es : List (InputGroup × String × InputSpec)) :
    ((freshInputs r es).map Input.named).map Surface.declaration = es := by
  rw [List.map_map]
  exact map_declaration_freshInputs r es

theorem keys_named (r : Register) (es : List (InputGroup × String × InputSpec)) :
    Entries.keys ((freshInputs r es).map Input.named) = es.map fun e => e.2.1 := by
  rw [Entries.keys, List.map_map]
  exact map_name_freshInputs r es

/-! ## The hidden inputs of one step -/

/-- Hidden inputs with new names all get new registers. -/
theorem Allotment.entries_shareAll {a : Allotment} {hs : List (String × InputSpec)}
    (h : (a.hidden.keys ++ Entries.keys hs).Nodup) :
    (a.shareAll hs).hidden.entries = a.hidden.entries ++
      (freshInputs a.next (hs.map fun e => (.hidden, e))).map Input.named := by
  induction hs generalizing a with
  | nil => simp [freshInputs]
  | cons e hs ih =>
      obtain ⟨name, spec⟩ := e
      obtain ⟨-, -, hdisjoint⟩ := List.nodup_append.1 h
      have hnew : name ∉ a.hidden.keys := fun hk => hdisjoint name hk name (by simp) rfl
      rw [shareAll_cons, share_of_none (OrderedMap.find?_eq_none_iff.2 hnew), ih]
      · rw [OrderedMap.entries_insert_of_not_mem hnew, List.append_assoc]
        rfl
      · rw [OrderedMap.keys_insert_of_not_mem hnew, List.append_assoc]
        exact h

/-- The allotment after the inputs of a step, if there was no hidden input before. -/
theorem Allotment.entries_after (start : Register) (step : Step) :
    (Allotment.after ⟨.empty, start⟩ step).hidden.entries =
      (freshInputs (start.advance step.schema.visible.length)
        (step.schema.hidden.entries.map fun e => (.hidden, e))).map Input.named :=
  entries_shareAll step.schema.hidden.nodup_keys

theorem Allotment.agrees_after {start : Register} {step : Step} {e : String × InputSpec}
    (he : e ∈ step.schema.hidden.entries) :
    (Allotment.after ⟨.empty, start⟩ step).Agrees e.1 e.2 := by
  have hmem : (InputGroup.hidden, e) ∈
      (Allotment.after ⟨.empty, start⟩ step).hidden.entries.map Surface.declaration := by
    rw [entries_after, map_declaration_named]
    exact List.mem_map_of_mem he
  obtain ⟨⟨name, i⟩, hi, heq⟩ := List.mem_map.1 hmem
  obtain ⟨-, rfl⟩ := Prod.mk.inj heq
  exact ⟨i, OrderedMap.find?_eq_some_iff.2 hi, rfl⟩

/-- A step reads each hidden input from the register of the hidden input. -/
theorem map_hiddenRegister_after (start : Register) (step : Step) :
    (step.schema.hidden.entries.map fun e =>
        (e.1, hiddenRegister (Allotment.after ⟨.empty, start⟩ step).hidden e.1)) =
      (Allotment.after ⟨.empty, start⟩ step).hidden.entries.map fun e => (e.1, e.2.register) := by
  have hkeys : step.schema.hidden.entries.map Prod.fst =
      (Allotment.after ⟨.empty, start⟩ step).hidden.entries.map Prod.fst := by
    have hnames := keys_named (start.advance step.schema.visible.length)
      (step.schema.hidden.entries.map fun e => (.hidden, e))
    rw [← Allotment.entries_after, List.map_map] at hnames
    exact hnames.symm
  have hmap := congrArg (List.map fun x =>
    (x, hiddenRegister (Allotment.after ⟨.empty, start⟩ step).hidden x)) hkeys
  rw [List.map_map, List.map_map] at hmap
  refine hmap.trans (List.map_congr_left fun e he => ?_)
  rw [Function.comp_apply, hiddenRegister_of_find? (OrderedMap.find?_eq_some_iff.2 he)]

/-! ## The outputs of one step -/

/-- Outputs that nothing reads and whose names are new and distinct are exported as they are. -/
theorem exportNodeOutputs_default {id : NodeId} {os : List Output} {e : Exports}
    (hfree : ∀ o ∈ os, o.consumers = [])
    (hnames : (e.outputs.map ExportedOutput.name ++ os.map Output.name).Nodup) :
    ∃ xs next, exportNodeOutputs .default id e os =
        (xs.map fun x => ⟨x.name, x.typeTag, [x.register]⟩, ⟨e.outputs ++ xs, next⟩) ∧
      xs.map (fun x => (x.typeTag, x.name)) = os.map fun o => (o.typeTag, o.name) := by
  induction os generalizing e with
  | nil => exact ⟨[], e.next, by simp [exportNodeOutputs], rfl⟩
  | cons o os ih =>
      obtain ⟨ho, hfree⟩ := List.forall_mem_cons.1 hfree
      have hnew : o.name ∉ e.outputs.map ExportedOutput.name := fun hmem =>
        (List.nodup_append.1 hnames).2.2 o.name hmem o.name (by simp) rfl
      let x : ExportedOutput := ⟨o.name, o.typeTag, e.next⟩
      have hx : exportOutput .default id e o =
          (⟨x.name, x.typeTag, [x.register]⟩, ⟨e.outputs ++ [x], e.next.next⟩) := by
        simp [exportOutput, isExported, ExportOptions.default, ho, firstFree, hnew, x]
      have hnames' : ((e.outputs ++ [x]).map ExportedOutput.name ++ os.map Output.name).Nodup := by
        simpa [x] using hnames
      obtain ⟨xs, next, hxs, hmap⟩ := @ih ⟨e.outputs ++ [x], e.next.next⟩ hfree hnames'
      refine ⟨x :: xs, next, ?_, ?_⟩
      · simp [exportNodeOutputs, hx, hxs]
      · simp [hmap, x]

/-! ## Compiling one node -/

variable {catalog : Catalog} {start : Register} {n : Graph.Node} {step : Step}

/-- The one node of a graph is made as its step is declared. -/
theorem createNodes_singleton (hslots : n.slots = []) (hvalues : n.values = [])
    (hstep : catalog n.type = some step) :
    createNodes catalog start [n] = .ok
      ⟨[Node.fresh (n.idAt 0) n step start (Allotment.after ⟨.empty, start⟩ step).hidden],
        (Allotment.after ⟨.empty, start⟩ step).hidden,
        (Allotment.after ⟨.empty, start⟩ step).next⟩ := by
  let a := Allotment.after ⟨.empty, start⟩ step
  let m := Node.fresh (n.idAt 0) n step start a.hidden
  have hmake : Node.make (n.idAt 0) n step ⟨.empty, start⟩ = .ok (m, a) :=
    Node.make_eq_ok_iff.2 ⟨fun e he => Allotment.agrees_after he, rfl, rfl⟩
  have hseparate : m.separateSlots (n.slots.map Graph.Slot.name) = .ok m := by
    rw [hslots]
    rfl
  have hdefaults : m.withDefaults n.values = m := by
    rw [hvalues, Node.withDefaults, assignDefaults_nil]
  have hnodes : makeNodes catalog 0 [] ⟨.empty, start⟩ [n] = .ok ([m], a) := by
    refine makeNodes_cons_eq_ok_iff.2 ⟨by simp, step, hstep, m, a, hmake, m, [], hseparate, rfl, ?_⟩
    rw [hdefaults]
  rw [createNodes, hnodes]
  rfl

/-- The inputs of one node are exported as its step declares them. -/
theorem entries_exportInputs_fresh (hinputs : step.schema.names.Nodup) (m : Node)
    (hfeeds : m.feeds = freshInputs start step.schema.visible) :
    (exportInputs [] (Allotment.after ⟨.empty, start⟩ step).hidden [m]).entries =
      (Allotment.after ⟨.empty, start⟩ step).hidden.entries ++
        (freshInputs start step.schema.visible).map Input.named := by
  have hopen : openInputs [] [m] = freshInputs start step.schema.visible := by
    simp [openInputs, hfeeds]
  have hkeys : (Allotment.after ⟨.empty, start⟩ step).hidden.keys = step.schema.hidden.keys := by
    rw [OrderedMap.keys, Allotment.entries_after, keys_named, List.map_map]
    rfl
  have hnodup : (step.schema.hidden.keys ++
      (freshInputs start step.schema.visible).map Input.name).Nodup := by
    rw [map_name_freshInputs]
    rw [InputSchema.names_eq] at hinputs
    exact List.perm_append_comm.nodup_iff.1 hinputs
  rw [entries_exportInputs, hopen, hkeys, exportNames_of_nodup hnodup]
  have hzip :=
    List.zip_map' (f := Input.name) (g := id) (l := freshInputs start step.schema.visible)
  rw [List.map_id] at hzip
  rw [hzip]
  rfl

/-- A step that gives each input and each output a name of its own can be run on its own. -/
theorem exists_runsOnly (start : Register) (extra : OrderedMap String Json) (hslots : n.slots = [])
    (hvalues : n.values = []) (hstep : catalog n.type = some step)
    (hinputs : step.schema.names.Nodup) (houtputs : (step.outputs.map OutputSpec.name).Nodup) :
    ∃ p g, compileFrom start catalog ⟨[n], [], extra⟩ .default = .ok p ∧ g.step = step ∧
      p.RunsOnly g := by
  let a := Allotment.after ⟨.empty, start⟩ step
  let m := Node.fresh (n.idAt 0) n step start a.hidden
  obtain ⟨xs, next, hxs, hmap⟩ : ∃ xs next, exportNodeOutputs .default m.id ⟨[], a.next⟩ m.outputs =
      (xs.map fun x => ⟨x.name, x.typeTag, [x.register]⟩, ⟨[] ++ xs, next⟩) ∧
        xs.map (fun x => (x.typeTag, x.name)) = m.outputs.map fun o => (o.typeTag, o.name) := by
    refine exportNodeOutputs_default ?_ ?_
    · intro o ho
      obtain ⟨spec, -, rfl⟩ := List.mem_map.1 ho
      rfl
    · simpa [m, Node.fresh, Function.comp_def] using houtputs
  let m' : Node := { m with outputs := xs.map fun x => ⟨x.name, x.typeTag, [x.register]⟩ }
  let inputs := exportInputs [] a.hidden [m']
  have hcompile : compileFrom start catalog ⟨[n], [], extra⟩ .default =
      .ok ⟨[Stage.ofNode m'], inputs, xs, [m'].any fun n => n.step.isOutputNode⟩ := by
    have hcreate : createNodes catalog start [n] = _ := createNodes_singleton hslots hvalues hstep
    simp only [compileFrom, hcreate, Except.ok_bind, connectLinks, connectFrom, exportOutputs,
      exportOutputsFrom]
    rw [hxs]
    rfl
  have hentries : inputs.entries = a.hidden.entries ++
      (freshInputs start step.schema.visible).map Input.named :=
    entries_exportInputs_fresh hinputs m' rfl
  have hspecs : m.outputs.map (fun o => (⟨o.typeTag, o.name⟩ : OutputSpec)) = step.outputs := by
    simp [m, Node.fresh, Function.comp_def]
  refine ⟨_, Stage.ofNode m', hcompile, rfl, rfl, Bool.or_false _, ?_, ?_, ?_, ?_⟩
  · rw [hentries, List.map_append, Allotment.entries_after, map_declaration_named,
      map_declaration_named]
    rfl
  · have hpairs := congrArg (List.map fun e : String × String => (⟨e.1, e.2⟩ : OutputSpec)) hmap
    rw [List.map_map, List.map_map] at hpairs
    exact hpairs.trans hspecs
  · have hmap : (Stage.ofNode m').inputMap.entries = _ := entries_argumentMap hinputs start a.hidden
    rw [hmap, map_hiddenRegister_after, hentries, List.map_append, List.map_map]
    exact List.perm_append_comm
  · simp [m', Stage.ofNode]

end Plan

end StepGraph
