import StepGraph.Proofs.Ownership
import StepGraph.Proofs.Renumbering.Basic

/-!
# Compiling commutes with renumbering

Let `f` be one to one, and let it take the register after `r` to the register after `f r`: moving
all registers by the same distance is such a renumbering. Then every stage of compiling commutes
with it: what a stage makes of renumbered data, with registers taken from `f start` on, is what it
makes of the data with registers from `start` on, renumbered, and where the one fails the other one
fails with the same error.

The stages read the first register of an input, and an input without registers has none that could
be renumbered. So it is carried along that every input owns a register.
-/

namespace StepGraph

/-- A one-to-one renumbering that keeps which register comes after which. -/
structure Register.Renumbers (f : Register → Register) : Prop where
  injective : Function.Injective f
  next : ∀ r, f r.next = (f r).next

theorem Register.renumbers_advance (k : Nat) : Register.Renumbers fun r => r.advance k where
  injective r r' h := by
    have hindex := congrArg Register.index h
    simp only [Register.advance, Nat.add_right_cancel_iff] at hindex
    exact congrArg Register.mk hindex
  next r := r.next_advance k

/-- Every register lies its own number behind the register zero. -/
theorem Register.zero_advance (r : Register) : (⟨0⟩ : Register).advance r.index = r :=
  congrArg Register.mk (Nat.zero_add r.index)

variable {f : Register → Register}

theorem Input.register_renumber {i : Input} (h : i.registers ≠ []) :
    (i.renumber f).register = f i.register := by
  obtain ⟨r, rs, hrs⟩ := List.exists_cons_of_ne_nil h
  rw [register, register, renumber, hrs]
  rfl

/-- Every one of the inputs owns a register. -/
def Owning (is : List Input) : Prop := ∀ i ∈ is, i.registers ≠ []

theorem modify_map {α β : Type} {g : α → β} {change : α → α} {change' : β → β}
    (h : ∀ a, change' (g a) = g (change a)) (as : List α) (i : Nat) :
    (as.map g).modify i change' = (as.modify i change).map g := by
  refine List.ext_getElem? fun k => ?_
  rw [List.getElem?_modify, List.getElem?_map, List.getElem?_map, List.getElem?_modify]
  cases as[k]? with
  | none => rfl
  | some a => by_cases hk : i = k <;> simp [hk, h]

namespace Plan

/-! ## Nodes -/

theorem Binding.owning_of_add {b b' : Binding} {group : InputGroup} {name : String}
    {spec : InputSpec} (hadd : b.add group name spec = .ok b')
    (h : Owning b.allotment.hidden.values) : Owning b'.allotment.hidden.values := by
  cases group with
  | required =>
      cases hadd
      exact h
  | optional =>
      cases hadd
      exact h
  | hidden =>
      rw [add] at hadd
      split at hadd
      · split at hadd
        · cases hadd
          exact h
        · cases hadd
      · cases hadd
        intro i hi
        obtain ⟨e, he, rfl⟩ := List.mem_map.1 hi
        rcases OrderedMap.mem_entries_insert he with rfl | he
        · simp
        · exact h e.2 (List.mem_map_of_mem he)

theorem Binding.owning_of_addAll {b b' : Binding} {es : List (InputGroup × String × InputSpec)}
    (hadd : b.addAll es = .ok b') (h : Owning b.allotment.hidden.values) :
    Owning b'.allotment.hidden.values := by
  induction es generalizing b with
  | nil =>
      cases hadd
      exact h
  | cons e es ih =>
      rw [addAll] at hadd
      split at hadd
      · next b₁ hb₁ => exact ih hadd (owning_of_add hb₁ h)
      · cases hadd

theorem owning_of_make {id : NodeId} {saved : Graph.Node} {step : Step} {a : Allotment}
    {made : Node × Allotment} (hmade : Node.make id saved step a = .ok made)
    (h : Owning a.hidden.values) : Owning made.2.hidden.values := by
  rw [Node.make] at hmade
  split at hmade
  · next b hb =>
    cases hmade
    exact Binding.owning_of_addAll hb h
  · cases hmade

section

variable (hf : Register.Renumbers f)

include hf

theorem Binding.add_renumber {b : Binding} (h : Owning b.allotment.hidden.values)
    (group : InputGroup) (name : String) (spec : InputSpec) :
    (b.renumber f).add group name spec = (b.add group name spec).map (Binding.renumber f) := by
  have hfresh : Input.make name group spec (f b.allotment.next) =
      (Input.make name group spec b.allotment.next).renumber f := rfl
  cases group with
  | hidden =>
      cases hshared : b.allotment.hidden.find? name with
      | none =>
          simp only [add, renumber, Allotment.renumber, Surface.renumber, hshared, hfresh,
            OrderedMap.find?_mapValues, OrderedMap.insert_mapValues, ← hf.next, Option.map_none]
          rw [Input.register_renumber (by simp), OrderedMap.insert_mapValues]
          rfl
      | some shared =>
          simp only [add, renumber, Allotment.renumber, Surface.renumber, hshared,
            OrderedMap.find?_mapValues, Option.map_some]
          have hmem := List.mem_map_of_mem (f := Prod.snd) (OrderedMap.find?_eq_some_iff.1 hshared)
          rw [Input.register_renumber (h shared hmem), OrderedMap.insert_mapValues,
            apply_ite (Except.map _)]
          rfl
  | required =>
      simp only [add, renumber, Allotment.renumber, hfresh, ← hf.next]
      rw [Input.register_renumber (by simp), OrderedMap.insert_mapValues, ← List.map_singleton,
        ← List.map_append]
      rfl
  | optional =>
      simp only [add, renumber, Allotment.renumber, hfresh, ← hf.next]
      rw [Input.register_renumber (by simp), OrderedMap.insert_mapValues, ← List.map_singleton,
        ← List.map_append]
      rfl

theorem Binding.addAll_renumber {b : Binding} (h : Owning b.allotment.hidden.values)
    (es : List (InputGroup × String × InputSpec)) :
    (b.renumber f).addAll es = (b.addAll es).map (Binding.renumber f) := by
  induction es generalizing b with
  | nil => rfl
  | cons e es ih =>
      obtain ⟨group, name, spec⟩ := e
      rw [addAll, addAll, add_renumber hf h]
      cases hadd : b.add group name spec with
      | error e => rfl
      | ok b' => exact ih (owning_of_add hadd h)

theorem Node.make_renumber {a : Allotment} (h : Owning a.hidden.values) (id : NodeId)
    (saved : Graph.Node) (step : Step) :
    Node.make id saved step (a.renumber f) =
      (Node.make id saved step a).map (Prod.map (Node.renumber f) (Allotment.renumber f)) := by
  have hempty : (⟨.empty, [], a.renumber f⟩ : Binding) = Binding.renumber f ⟨.empty, [], a⟩ := rfl
  rw [make, make, hempty, Binding.addAll_renumber hf h]
  cases hadd : Binding.addAll ⟨.empty, [], a⟩ step.schema.entries with
  | error e => rfl
  | ok b => simp [Except.map, renumber, Output.renumber, Binding.renumber]

omit hf in
theorem takeInput?_renumber (name : String) (is : List Input) :
    takeInput? name (is.map (Input.renumber f)) =
      (takeInput? name is).map (Prod.map (Input.renumber f) (List.map (Input.renumber f))) := by
  induction is with
  | nil => rfl
  | cons i is ih =>
      rw [List.map_cons, takeInput?, takeInput?, ih, apply_ite (Option.map _), Option.map_map,
        Option.map_map]
      rfl

omit hf in
theorem Node.separateSlots_renumber (n : Node) (names : List String) :
    (n.renumber f).separateSlots names = (n.separateSlots names).map (Node.renumber f) := by
  induction names generalizing n with
  | nil => rfl
  | cons name names ih =>
      have hinputs : (n.renumber f).inputs = n.inputs.map (Input.renumber f) := rfl
      rw [separateSlots, separateSlots, hinputs, takeInput?_renumber]
      cases htake : takeInput? name n.inputs with
      | none =>
          have hslots : ((n.renumber f).slots.any fun s => s.name == name) =
              n.slots.any fun s => s.name == name := List.any_map
          simp only [Option.map_none, hslots]
          rw [apply_ite (Except.map _)]
          rfl
      | some r =>
          have hmoved := ih { n with inputs := r.2, slots := n.slots ++ [r.1] }
          rw [← hmoved]
          simp [renumber]

omit hf in
theorem assignDefaults_renumber (is : List Input) (values : List Json) :
    assignDefaults (is.map (Input.renumber f)) values =
      (assignDefaults is values).map (Input.renumber f) := by
  induction is generalizing values with
  | nil => simp [assignDefaults]
  | cons i is ih =>
      cases values with
      | nil => simp [assignDefaults]
      | cons value values =>
          rw [List.map_cons, assignDefaults, assignDefaults, ih]
          rfl

omit hf in
theorem Node.withDefaults_renumber (n : Node) (values : List Json) :
    (n.renumber f).withDefaults values = (n.withDefaults values).renumber f := by
  simp [withDefaults, renumber, assignDefaults_renumber]

theorem makeNodes_renumber {catalog : Catalog} {start : Nat} {seen : List NodeId} {a : Allotment}
    (h : Owning a.hidden.values) (saved : List Graph.Node) :
    makeNodes catalog start seen (a.renumber f) saved =
      (makeNodes catalog start seen a saved).map
        (Prod.map (List.map (Node.renumber f)) (Allotment.renumber f)) := by
  induction saved generalizing start seen a with
  | nil => rfl
  | cons m saved ih =>
      rw [makeNodes, makeNodes]
      by_cases hseen : m.idAt start ∈ seen
      · simp only [hseen, if_true]
        rfl
      simp only [hseen, if_false]
      cases catalog m.type with
      | none => rfl
      | some step =>
          simp only [pure_bind]
          rw [Node.make_renumber hf h]
          refine Except.map_bind_of fun made hmade => ?_
          have hmade' : Owning made.2.hidden.values := owning_of_make hmade h
          simp only [Prod.map, Node.separateSlots_renumber]
          refine Except.map_bind_of fun n hn => ?_
          rw [ih hmade']
          refine Except.map_bind_of fun rest hrest => ?_
          rw [Node.withDefaults_renumber]
          rfl

theorem createNodes_renumber (catalog : Catalog) (start : Register) (saved : List Graph.Node) :
    createNodes catalog (f start) saved =
      (createNodes catalog start saved).map (NodeGraph.renumber f) := by
  have hempty : (⟨.empty, f start⟩ : Allotment) = Allotment.renumber f ⟨.empty, start⟩ := rfl
  rw [createNodes, createNodes, hempty, makeNodes_renumber hf (by simp [Owning, OrderedMap.values])]
  refine Except.map_bind_of fun made hmade => ?_
  simp only [Prod.map, sortBy_map]
  rfl

/-! ## Links -/

omit hf in
theorem position?_renumber (ns : List Node) (id : NodeId) :
    position? (ns.map (Node.renumber f)) id = position? ns id := by
  rw [position?, position?, List.findIdx?_map]
  rfl

omit hf in
theorem slot?_renumber (ns : List Node) (i k : Nat) :
    ((ns.map (Node.renumber f))[i]?.bind fun n => n.slots[k]?) =
      (ns[i]?.bind fun n => n.slots[k]?).map (Input.renumber f) := by
  rw [List.getElem?_map]
  cases ns[i]? with
  | none => rfl
  | some n => exact List.getElem?_map ..

omit hf in
theorem output?_renumber (ns : List Node) (i k : Nat) :
    ((ns.map (Node.renumber f))[i]?.bind fun n => n.outputs[k]?) =
      (ns[i]?.bind fun n => n.outputs[k]?).map (Output.renumber f) := by
  rw [List.getElem?_map]
  cases ns[i]? with
  | none => rfl
  | some n => exact List.getElem?_map ..

omit hf in
theorem Node.addConsumer_renumber (n : Node) (slot : Nat) (r : Register) :
    (n.renumber f).addConsumer slot (f r) = (n.addConsumer slot r).renumber f := by
  have houtputs : (n.outputs.map (Output.renumber f)).modify slot (fun o => o.addConsumer (f r)) =
      (n.outputs.modify slot fun o => o.addConsumer r).map (Output.renumber f) :=
    modify_map (fun o => by simp [Output.addConsumer, Output.renumber]) n.outputs slot
  simp [addConsumer, renumber, houtputs]

theorem connectLink_renumber {ns : List Node} (h : Owning (ns.flatMap Node.feeds)) (w : Wiring)
    (l : Graph.Link) :
    connectLink (ns.map (Node.renumber f)) (w.renumber f) l =
      (connectLink ns w l).map (Prod.map (List.map (Node.renumber f)) (Wiring.renumber f)) := by
  rw [connectLink, connectLink, position?_renumber, position?_renumber]
  cases position? ns l.fromNode with
  | error e => rfl
  | ok source =>
  cases position? ns l.toNode with
  | error e => rfl
  | ok target =>
  simp only [Except.ok_bind, slot?_renumber, output?_renumber]
  cases hinput : ns[target]?.bind fun n => n.slots[l.toSlot.toNat]? with
  | none => rfl
  | some input =>
  cases houtput : ns[source]?.bind fun n => n.outputs[l.fromSlot.toNat]? with
  | none => rfl
  | some output =>
  obtain ⟨n, hn, hslot⟩ := Option.bind_eq_some_iff.1 hinput
  have hmem : input ∈ ns.flatMap Node.feeds :=
    List.mem_flatMap.2 ⟨n, List.mem_of_getElem? hn,
      List.mem_append_left _ (List.mem_of_getElem? hslot)⟩
  have hregister : (input.renumber f).register = f input.register :=
    Input.register_renumber (h input hmem)
  simp only [Option.map_some, pure_bind, hregister]
  by_cases htype : output.typeTag = input.typeTag
  · have htype' : (output.renumber f).typeTag = (input.renumber f).typeTag := htype
    have hlinked : (if f input.register ∈ (w.renumber f).linked then (w.renumber f).linked
        else (w.renumber f).linked ++ [f input.register]) =
          (if input.register ∈ w.linked then w.linked
            else w.linked ++ [input.register]).map f := by
      simp only [Wiring.renumber, List.mem_map_of_injective hf.injective, apply_ite (List.map f),
        List.map_append, List.map_singleton]
    have hnodes : ((ns.map (Node.renumber f)).modify source fun n =>
        n.addConsumer l.fromSlot.toNat (f input.register)) =
          (ns.modify source fun n => n.addConsumer l.fromSlot.toNat input.register).map
            (Node.renumber f) :=
      modify_map (fun n => n.addConsumer_renumber l.fromSlot.toNat input.register) ns source
    rw [if_neg (not_not.2 htype), if_neg (not_not.2 htype'), hlinked, hnodes]
    rfl
  · have htype' : (output.renumber f).typeTag ≠ (input.renumber f).typeTag := htype
    rw [if_pos htype, if_pos htype']
    rfl

omit hf in
theorem feeds_of_connectLink {ns : List Node} {w : Wiring} {l : Graph.Link}
    {result : List Node × Wiring} (h : connectLink ns w l = .ok result) :
    result.1.flatMap Node.feeds = ns.flatMap Node.feeds := by
  obtain ⟨s, t, input, output, -, -, -, -, -, rfl⟩ := connectLink_eq_ok_iff.1 h
  have hfeeds : (ns.map Node.feeds).modify s id =
      (ns.modify s fun n => n.addConsumer l.fromSlot.toNat input.register).map Node.feeds :=
    modify_map (g := Node.feeds) (fun _ => rfl) ns s
  rw [List.flatMap_def, List.flatMap_def, ← hfeeds, List.modify_id]

theorem connectFrom_renumber {ns : List Node} (h : Owning (ns.flatMap Node.feeds)) (w : Wiring)
    (links : List Graph.Link) :
    connectFrom (ns.map (Node.renumber f)) (w.renumber f) links =
      (connectFrom ns w links).map
        (Prod.map (List.map (Node.renumber f)) (Wiring.renumber f)) := by
  induction links generalizing ns w with
  | nil => rfl
  | cons l links ih =>
      rw [connectFrom, connectFrom, connectLink_renumber hf h]
      refine Except.map_bind_of fun result hresult => ?_
      exact ih (by rwa [feeds_of_connectLink hresult]) result.2

omit hf in
theorem feeds_of_connectFrom {ns : List Node} {w : Wiring} {links : List Graph.Link}
    {result : List Node × Wiring} (h : connectFrom ns w links = .ok result) :
    result.1.flatMap Node.feeds = ns.flatMap Node.feeds := by
  induction links generalizing ns w with
  | nil =>
      cases h
      rfl
  | cons l links ih =>
      obtain ⟨first, hfirst, hrest⟩ := Except.bind_eq_ok_iff.1 h
      exact (ih hrest).trans (feeds_of_connectLink hfirst)

/-! ## Surfaces -/

theorem exportOutput_renumber (options : ExportOptions) (id : NodeId) (e : Exports) (o : Output) :
    exportOutput options id (e.renumber f) (o.renumber f) =
      Prod.map (Output.renumber f) (Exports.renumber f) (exportOutput options id e o) := by
  have hexported : isExported options id (o.renumber f) = isExported options id o := by
    rw [isExported, isExported]
    simp [Output.renumber, exportKey]
  have hnames : (e.outputs.map (ExportedOutput.renumber f)).map ExportedOutput.name =
      e.outputs.map ExportedOutput.name := List.map_map
  rw [exportOutput, exportOutput, hexported]
  split
  · simp [Exports.renumber, Output.renumber, ExportedOutput.renumber, hnames, exportKey, hf.next]
  · rfl

theorem exportNodeOutputs_renumber (options : ExportOptions) (id : NodeId) (e : Exports)
    (os : List Output) :
    exportNodeOutputs options id (e.renumber f) (os.map (Output.renumber f)) =
      Prod.map (List.map (Output.renumber f)) (Exports.renumber f)
        (exportNodeOutputs options id e os) := by
  induction os generalizing e with
  | nil => rfl
  | cons o os ih =>
      simp only [List.map_cons, exportNodeOutputs, exportOutput_renumber hf, Prod.map, ih]

theorem exportOutputsFrom_renumber (options : ExportOptions) (e : Exports) (ns : List Node) :
    exportOutputsFrom options (e.renumber f) (ns.map (Node.renumber f)) =
      Prod.map (List.map (Node.renumber f)) (Exports.renumber f)
        (exportOutputsFrom options e ns) := by
  induction ns generalizing e with
  | nil => rfl
  | cons n ns ih =>
      have hid : (n.renumber f).id = n.id := rfl
      have houtputs : (n.renumber f).outputs = n.outputs.map (Output.renumber f) := rfl
      simp only [List.map_cons, exportOutputsFrom, hid, houtputs, exportNodeOutputs_renumber hf,
        Prod.map, ih]
      rfl

theorem exportOutputs_renumber (options : ExportOptions) (start : Register) (ns : List Node) :
    exportOutputs options (f start) (ns.map (Node.renumber f)) =
      Prod.map (List.map (Node.renumber f)) (Exports.renumber f)
        (exportOutputs options start ns) :=
  exportOutputsFrom_renumber hf options ⟨[], start⟩ ns

omit hf in
theorem feeds_of_exportOutputsFrom (options : ExportOptions) (e : Exports) (ns : List Node) :
    (exportOutputsFrom options e ns).1.flatMap Node.feeds = ns.flatMap Node.feeds := by
  induction ns generalizing e with
  | nil => rfl
  | cons n ns ih => simp only [exportOutputsFrom, List.flatMap_cons, ih, Node.feeds]

omit hf in
theorem feeds_renumber (ns : List Node) :
    (ns.map (Node.renumber f)).flatMap Node.feeds =
      (ns.flatMap Node.feeds).map (Input.renumber f) := by
  rw [List.flatMap_map, List.map_flatMap]
  refine congrArg (List.flatMap · ns) (funext fun n => ?_)
  exact List.map_append.symm

theorem exportInputs_renumber {ns : List Node} (h : Owning (ns.flatMap Node.feeds))
    (linked : List Register) (surface : InputMap) :
    exportInputs (linked.map f) (Surface.renumber f surface) (ns.map (Node.renumber f)) =
      Surface.renumber f (exportInputs linked surface ns) := by
  rw [exportInputs, exportInputs, feeds_renumber]
  generalize ns.flatMap Node.feeds = is at h
  induction is generalizing surface with
  | nil => rfl
  | cons i is ih =>
      obtain ⟨hi, his⟩ := List.forall_mem_cons.1 h
      have hfirst : exportInput (linked.map f) (Surface.renumber f surface) (i.renumber f) =
          Surface.renumber f (exportInput linked surface i) := by
        rw [exportInput, exportInput, Input.register_renumber hi]
        simp only [List.mem_map_of_injective hf.injective, apply_ite (Surface.renumber f)]
        rw [Surface.renumber, Surface.renumber, ← OrderedMap.insert_mapValues,
          OrderedMap.keys_mapValues]
        rfl
      rw [List.map_cons, List.foldl_cons, List.foldl_cons, hfirst]
      exact ih _ his

/-! ## The whole compilation -/

omit hf in
theorem scheduleNodes_renumber (ns : List Node) (dependencies : List (List Nat)) :
    scheduleNodes (ns.map (Node.renumber f)) dependencies = scheduleNodes ns dependencies := by
  rw [scheduleNodes, scheduleNodes, List.length_map]
  simp only [List.getElem?_map, Option.map_map]
  rfl

omit hf in
theorem stages_renumber (ns : List Node) (order : List Nat) :
    (order.filterMap fun i => (ns.map (Node.renumber f))[i]?.map Stage.ofNode) =
      (order.filterMap fun i => ns[i]?.map Stage.ofNode).map (Stage.renumber f) := by
  have hstage : ∀ n : Node, Stage.ofNode (n.renumber f) = (Stage.ofNode n).renumber f := by
    intro n
    simp [Stage.ofNode, Stage.renumber, Node.renumber, Output.renumber]
  rw [List.map_filterMap]
  refine congrArg (List.filterMap · order) (funext fun i => ?_)
  rw [List.getElem?_map, Option.map_map, Option.map_map]
  exact congrArg (Option.map · ns[i]?) (funext hstage)

omit hf in
theorem owning_of_createNodes {catalog : Catalog} {start : Register} {g : Graph} {ng : NodeGraph}
    (h : createNodes catalog start g.nodes = .ok ng) : Owning (ng.nodes.flatMap Node.feeds) := by
  intro i hi
  obtain ⟨n, hn, hi⟩ := List.mem_flatMap.1 hi
  have hsingle := (createNodes_eq_ok h).inputs.1 i (NodeGraph.mem_ownedInputs_of_feed hn hi)
  simp [hsingle]

/-- A graph compiled with registers from `f start` on is the graph compiled with registers from
`start` on, renumbered; and if it cannot be compiled, the same error says so. -/
theorem compileFrom_renumber (start : Register) (catalog : Catalog) (g : Graph)
    (options : ExportOptions) :
    compileFrom (f start) catalog g options =
      (compileFrom start catalog g options).map (Plan.renumber f) := by
  rw [compileFrom, compileFrom, createNodes_renumber hf]
  refine Except.map_bind_of fun ng hng => ?_
  have hempty : Wiring.empty (ng.renumber f).nodes.length =
      (Wiring.empty ng.nodes.length).renumber f := by
    simp [Wiring.empty, Wiring.renumber, NodeGraph.renumber]
  have howning := owning_of_createNodes hng
  rw [connectLinks, connectLinks, hempty, NodeGraph.renumber, connectFrom_renumber hf howning]
  refine Except.map_bind_of fun wired hwired => ?_
  have hexports := exportOutputs_renumber hf options ng.next wired.1
  have howning' : Owning ((exportOutputs options ng.next wired.1).1.flatMap Node.feeds) := by
    rwa [exportOutputs, feeds_of_exportOutputsFrom, feeds_of_connectFrom hwired]
  simp only [Prod.map, hexports, scheduleNodes_renumber, stages_renumber]
  cases hschedule : scheduleNodes (exportOutputs options ng.next wired.1).1
      wired.2.dependencies with
  | error e => rw [Wiring.renumber, hschedule]; rfl
  | ok order =>
      have hinputs := exportInputs_renumber hf howning' wired.2.linked ng.hidden
      have hshows : (((exportOutputs options ng.next wired.1).1.map (Node.renumber f)).any
          fun n => n.step.isOutputNode) =
            (exportOutputs options ng.next wired.1).1.any fun n => n.step.isOutputNode :=
        List.any_map
      simp only [Wiring.renumber, hschedule, hinputs, hshows]
      rfl

end

end Plan

end StepGraph
