import StepGraph.Proofs.Node.Arrangement
import StepGraph.Proofs.Schedule
import StepGraph.Proofs.Surface.Export

/-!
# What a graph is compiled into

A graph is compiled by way of its nodes `ng`. Its links and its exported outputs become the wires
of `ng`, which are attached to the nodes; the nodes are put in the least order in which each comes
after those that its links come from; and the hidden inputs and the inputs that no link feeds make
the surface. `NodeGraph.Compiles` says so of a plan, and every plan that `compileFrom` returns is of
that kind.

`compileFrom` succeeds exactly if the nodes can be made, every link fits, and no node comes after
itself.
-/

namespace StepGraph.Plan

namespace NodeGraph

/-- The wires of the links. -/
def linkWires (ng : NodeGraph) (g : Graph) : List Wire := g.links.map (linkWire ng.nodes)

/-- The outputs that are exported. -/
def exports (ng : NodeGraph) (g : Graph) (options : ExportOptions) : List Export :=
  exportsOf options ng.next (ng.nodes.map (Node.attach (ng.linkWires g)))

/-- The wires of the links and of the exported outputs. -/
def wires (ng : NodeGraph) (g : Graph) (options : ExportOptions) : List Wire :=
  ng.linkWires g ++ (ng.exports g options).map Export.wire

/-- The inputs that no link feeds. -/
def freeInputs (ng : NodeGraph) (g : Graph) : List Input :=
  openInputs ((ng.linkWires g).map Wire.register) ng.nodes

/-- The plan has the stages of the nodes in this order, with their wires, and the surface that is
left by the links. -/
structure Compiles (ng : NodeGraph) (g : Graph) (options : ExportOptions) (order : List Nat)
    (p : Plan) : Prop where
  fits : ∀ l ∈ g.links, Fits ng.nodes l
  scheduled : ∃ dependencies, (∀ i d, DependsOn dependencies i d ↔
      ∃ l ∈ g.links, Connects ng.nodes l d i) ∧
    schedule ng.nodes.length dependencies = .ok order
  stages : p.stages = order.filterMap fun i =>
    ng.nodes[i]?.map fun n => Stage.ofNode (n.attach (ng.wires g options))
  inputs : p.inputs.entries = ng.hidden.entries ++
    (exportNames ng.hidden.keys ((ng.freeInputs g).map Input.name)).zip (ng.freeInputs g)
  outputs : p.outputs = (ng.exports g options).map Export.output

end NodeGraph

variable {start : Register} {catalog : Catalog} {g : Graph} {options : ExportOptions}

theorem dependsOn_iff_of_wired {ns ns' : List Node} {w : Wiring} {links : List Graph.Link}
    (h : Wired ns (Wiring.empty ns.length) links ns' w) {i d : Nat} :
    DependsOn w.dependencies i d ↔ ∃ l ∈ links, Connects ns l d i := by
  have hlength : w.dependencies.length = ns.length := by simpa [Wiring.empty] using h.length
  rcases Nat.lt_or_ge i ns.length with hi | hi
  · rw [DependsOn, h.dependencies i (by simpa [Wiring.empty] using hi)]
    simp [Wiring.empty, dependenciesOf, hi]
  · refine iff_of_false ?_ ?_
    · simp [DependsOn, dependenciesOf, List.getElem?_eq_none (hlength ▸ hi)]
    · rintro ⟨l, -, -, htarget⟩
      simp [List.getElem?_eq_none hi] at htarget

theorem openInputs_map_attach (linked : List Register) (ws : List Wire) (ns : List Node) :
    openInputs linked (ns.map (Node.attach ws)) = openInputs linked ns := by
  rw [openInputs, openInputs, List.flatMap_map]
  rfl

theorem openInputs_congr {linked linked' : List Register} (h : ∀ r, r ∈ linked ↔ r ∈ linked')
    (ns : List Node) : openInputs linked ns = openInputs linked' ns := by
  simp only [openInputs, h]

theorem scheduleNodes_eq_ok_iff {ns : List Node} {dependencies : List (List Nat)}
    {order : List Nat} :
    scheduleNodes ns dependencies = .ok order ↔ schedule ns.length dependencies = .ok order :=
  Except.mapError_eq_ok_iff

/-- What is compiled comes from nodes and an order of them. -/
theorem compiles_of_compileFrom_eq_ok {p : Plan} (h : compileFrom start catalog g options = .ok p) :
    ∃ ng order, createNodes catalog start g.nodes = .ok ng ∧ ng.Represents catalog g ∧
      ng.Compiles g options order p := by
  simp only [compileFrom, Except.bind_eq_ok_iff] at h
  obtain ⟨ng, hcreate, ⟨ns, w⟩, hconnect, order, horder, hp⟩ := h
  have hrepresents := createNodes_eq_ok hcreate
  obtain ⟨hfits, hwired⟩ := wired_of_connectFrom hrepresents.nodup_ids hconnect
  obtain rfl : ns = ng.nodes.map (Node.attach (ng.linkWires g)) := hwired.nodes
  have hnodup : ((ng.nodes.map (Node.attach (ng.linkWires g))).map Node.id).Nodup := by
    rw [map_id_map_attach]
    exact hrepresents.nodup_ids
  rw [exportOutputs_eq hnodup] at horder hp
  cases hp
  refine ⟨ng, order, hcreate, hrepresents, hfits, ⟨w.dependencies, ?_, ?_⟩, ?_, ?_, rfl⟩
  · intro i d
    exact dependsOn_iff_of_wired hwired
  · simpa using scheduleNodes_eq_ok_iff.1 horder
  · simp only [List.map_map, List.getElem?_map, Option.map_map, NodeGraph.wires]
    refine List.filterMap_congr fun i _ => ?_
    cases ng.nodes[i]? with
    | none => rfl
    | some n =>
        simp only [Option.map_some, Function.comp_apply, attach_append]
        rfl
  · simp only [entries_exportInputs, openInputs_map_attach]
    have hlinked : openInputs w.linked ng.nodes = ng.freeInputs g := by
      refine openInputs_congr (fun r => ?_) ng.nodes
      rw [hwired.linked]
      simp [Wiring.empty, NodeGraph.linkWires]
    rw [hlinked]

/-! ## Which failures are cycles -/

/-- The outcome is no failure because of a cycle. -/
def CycleFree {α : Type} (x : Except CompileError α) : Prop :=
  ∀ ids, x ≠ .error (.dependencyCycle ids)

theorem CycleFree.ok {α : Type} (a : α) : CycleFree (.ok a) := by simp [CycleFree]

theorem CycleFree.throw_bind {α β : Type} {e : CompileError} {f : α → Except CompileError β}
    (h : ∀ ids, e ≠ .dependencyCycle ids) : CycleFree (throw e >>= f) := by
  intro ids heq
  exact h ids (Except.error.inj heq)

/-- A chain of steps ends with a cycle only if one of the steps does. -/
theorem CycleFree.bind {α β : Type} {x : Except CompileError α} {f : α → Except CompileError β}
    (hx : CycleFree x) (hf : ∀ a, CycleFree (f a)) : CycleFree (x >>= f) := by
  cases x with
  | ok a => exact hf a
  | error e =>
      intro ids h
      cases h
      exact hx ids rfl

theorem Binding.cycleFree_add (b : Binding) (group : InputGroup) (name : String)
    (spec : InputSpec) : CycleFree (b.add group name spec) := by
  cases group with
  | required => exact CycleFree.ok _
  | optional => exact CycleFree.ok _
  | hidden =>
      simp only [Binding.add]
      split
      · split
        · exact CycleFree.ok _
        · simp [CycleFree]
      · exact CycleFree.ok _

theorem Binding.cycleFree_addAll (b : Binding) (es : List (InputGroup × String × InputSpec)) :
    CycleFree (b.addAll es) := by
  induction es generalizing b with
  | nil => exact CycleFree.ok b
  | cons e es ih =>
      obtain ⟨group, name, spec⟩ := e
      have hadd := b.cycleFree_add group name spec
      rw [Binding.addAll]
      cases h : b.add group name spec with
      | ok b' => exact ih b'
      | error e =>
          rw [h] at hadd
          simpa [CycleFree] using hadd

theorem Node.cycleFree_make (id : NodeId) (saved : Graph.Node) (step : Step) (a : Allotment) :
    CycleFree (Node.make id saved step a) := by
  have hall := Binding.cycleFree_addAll ⟨.empty, [], a⟩ step.schema.entries
  rw [Node.make]
  cases h : Binding.addAll ⟨.empty, [], a⟩ step.schema.entries with
  | ok b => exact CycleFree.ok _
  | error e =>
      rw [h] at hall
      simpa [CycleFree] using hall

theorem Node.cycleFree_separateSlots (n : Node) (names : List String) :
    CycleFree (n.separateSlots names) := by
  induction names generalizing n with
  | nil => exact CycleFree.ok n
  | cons name names ih =>
      rw [Node.separateSlots]
      split
      · exact ih _
      · split <;> simp [CycleFree]

theorem cycleFree_makeNodes (start : Nat) (seen : List NodeId) (a : Allotment)
    (saved : List Graph.Node) : CycleFree (makeNodes catalog start seen a saved) := by
  induction saved generalizing start seen a with
  | nil => exact CycleFree.ok _
  | cons m saved ih =>
      rw [makeNodes]
      by_cases hseen : m.idAt start ∈ seen
      · rw [if_pos hseen]
        exact CycleFree.throw_bind (by simp)
      simp only [hseen, if_false]
      cases hstep : catalog m.type with
      | none => exact CycleFree.throw_bind (by simp)
      | some step =>
          simp only [pure_bind]
          refine CycleFree.bind (Node.cycleFree_make _ _ _ _) fun made => ?_
          refine CycleFree.bind (Node.cycleFree_separateSlots _ _) fun n => ?_
          exact CycleFree.bind (ih _ _ _) fun _ => CycleFree.ok _

theorem cycleFree_createNodes (start : Register) (saved : List Graph.Node) :
    CycleFree (createNodes catalog start saved) :=
  CycleFree.bind (cycleFree_makeNodes _ _ _ _) fun _ => CycleFree.ok _

theorem cycleFree_position? (ns : List Node) (id : NodeId) : CycleFree (position? ns id) := by
  rw [position?]
  split
  · exact CycleFree.ok _
  · simp [CycleFree]

theorem cycleFree_connectLink (ns : List Node) (w : Wiring) (l : Graph.Link) :
    CycleFree (connectLink ns w l) := by
  refine CycleFree.bind (cycleFree_position? _ _) fun s => ?_
  refine CycleFree.bind (cycleFree_position? _ _) fun t => ?_
  cases ns[t]?.bind fun n => n.slots[l.toSlot.toNat]? with
  | none => exact CycleFree.throw_bind (by simp)
  | some input =>
      refine CycleFree.bind (CycleFree.ok input) fun i => ?_
      cases ns[s]?.bind fun n => n.outputs[l.fromSlot.toNat]? with
      | none => exact CycleFree.throw_bind (by simp)
      | some output =>
          refine CycleFree.bind (CycleFree.ok output) fun o => ?_
          by_cases htype : o.typeTag ≠ i.typeTag
          · simp only [if_pos htype]
            exact CycleFree.throw_bind (by simp)
          · simp only [if_neg htype]
            exact CycleFree.ok _

theorem cycleFree_connectFrom (ns : List Node) (w : Wiring) (links : List Graph.Link) :
    CycleFree (connectFrom ns w links) := by
  induction links generalizing ns w with
  | nil => exact CycleFree.ok _
  | cons l links ih => exact CycleFree.bind (cycleFree_connectLink ns w l) fun _ => ih _ _

/-! ## When a graph is compiled -/

/-- Once the links are wired, only the order of the nodes can fail. -/
theorem compileFrom_eq_map {ng : NodeGraph} {ns : List Node} {w : Wiring}
    (hcreate : createNodes catalog start g.nodes = .ok ng)
    (hconnect : connectLinks g.links ng.nodes = .ok (ns, w)) :
    ∃ plan : List Nat → Plan, compileFrom start catalog g options =
      (scheduleNodes (exportOutputs options ng.next ns).1 w.dependencies).map plan := by
  simp only [compileFrom, hcreate, Except.ok_bind, hconnect]
  exact ⟨_, rfl⟩

theorem length_exportOutputs (ns : List Node) (e : Exports) :
    (exportOutputsFrom options e ns).1.length = ns.length := by
  induction ns generalizing e with
  | nil => rfl
  | cons n ns ih => rw [exportOutputsFrom, List.length_cons, ih, List.length_cons]

/-- The node at position `i` reads from the one at position `d`. -/
def LinkedFrom (ns : List Node) (links : List Graph.Link) (i d : Nat) : Prop :=
  ∃ l ∈ links, Connects ns l d i

theorem lt_length_of_linkedFrom {ns : List Node} {links : List Graph.Link} {i d : Nat}
    (h : LinkedFrom ns links i d) : d < ns.length ∧ i < ns.length := by
  obtain ⟨l, -, hd, hi⟩ := h
  obtain ⟨n, hn, -⟩ := Option.map_eq_some_iff.1 hd
  obtain ⟨m, hm, -⟩ := Option.map_eq_some_iff.1 hi
  exact ⟨(List.getElem?_eq_some_iff.1 hn).1, (List.getElem?_eq_some_iff.1 hm).1⟩

/-- No node can be reached from itself along links. -/
def AcyclicLinks (ns : List Node) (links : List Graph.Link) : Prop :=
  ∀ i < ns.length, ¬ Relation.TransGen (LinkedFrom ns links) i i

/-- Nodes that are wired can be ordered if and only if no node reads from itself, through others or
not. -/
theorem schedule_isOk_iff_of_wired {ns ns' : List Node} {w : Wiring} {links : List Graph.Link}
    (h : Wired ns (Wiring.empty ns.length) links ns' w) :
    (∃ order, schedule ns.length w.dependencies = .ok order) ↔ AcyclicLinks ns links := by
  have hdeps : DependsOn w.dependencies = LinkedFrom ns links := by
    funext i d
    exact propext (dependsOn_iff_of_wired h)
  rw [schedule_isOk_iff, hdeps]
  · rfl
  · intro i _ d hd
    exact (lt_length_of_linkedFrom ((dependsOn_iff_of_wired h).1 hd)).1

/-- The outcome of a compilation whose nodes are made and whose links fit. -/
theorem compileFrom_of_fits {ng : NodeGraph}
    (hcreate : createNodes catalog start g.nodes = .ok ng)
    (hfits : ∀ l ∈ g.links, Fits ng.nodes l) :
    ((∃ p, compileFrom start catalog g options = .ok p) ↔ AcyclicLinks ng.nodes g.links) ∧
      ((∃ ids, compileFrom start catalog g options = .error (.dependencyCycle ids)) ↔
        ¬ AcyclicLinks ng.nodes g.links) := by
  have hnodup := (createNodes_eq_ok hcreate).nodup_ids
  obtain ⟨⟨ns, w⟩, hconnect⟩ : ∃ r, connectLinks g.links ng.nodes = .ok r :=
    (connectFrom_isOk_iff hnodup).2 hfits
  have hwired := (wired_of_connectFrom hnodup hconnect).2
  have hlength : (exportOutputs options ng.next ns).1.length = ng.nodes.length := by
    rw [exportOutputs, length_exportOutputs, hwired.nodes, List.length_map]
  obtain ⟨plan, hplan⟩ := @compileFrom_eq_map start catalog g options ng ns w hcreate hconnect
  rw [← schedule_isOk_iff_of_wired hwired, hplan, scheduleNodes, hlength]
  cases schedule ng.nodes.length w.dependencies with
  | ok order => simp [Except.map]
  | error left => simp [Except.map]

/-- A graph is compiled exactly if its nodes can be made, all links fit and no node reads from
itself. -/
theorem compileFrom_isOk_iff :
    (∃ p, compileFrom start catalog g options = .ok p) ↔
      ∃ ng, createNodes catalog start g.nodes = .ok ng ∧ (∀ l ∈ g.links, Fits ng.nodes l) ∧
        AcyclicLinks ng.nodes g.links := by
  constructor
  · rintro ⟨p, hp⟩
    obtain ⟨ng, order, hcreate, -, hcompiles⟩ := compiles_of_compileFrom_eq_ok hp
    have hfits := hcompiles.fits
    exact ⟨ng, hcreate, hfits, (compileFrom_of_fits hcreate hfits).1.1 ⟨p, hp⟩⟩
  · rintro ⟨ng, hcreate, hfits, hacyclic⟩
    exact (compileFrom_of_fits hcreate hfits).1.2 hacyclic

/-- A cycle is what fails exactly if all but the order of the nodes is right. -/
theorem compileFrom_eq_cycle_iff :
    (∃ ids, compileFrom start catalog g options = .error (.dependencyCycle ids)) ↔
      ∃ ng, createNodes catalog start g.nodes = .ok ng ∧ (∀ l ∈ g.links, Fits ng.nodes l) ∧
        ¬ AcyclicLinks ng.nodes g.links := by
  constructor
  · rintro ⟨ids, hids⟩
    rcases Except.bind_eq_error_iff.1 hids with hcreate | ⟨ng, hcreate, hrest⟩
    · exact absurd hcreate (cycleFree_createNodes start g.nodes ids)
    rcases Except.bind_eq_error_iff.1 hrest with hconnect | ⟨r, hconnect, -⟩
    · exact absurd hconnect (cycleFree_connectFrom _ _ _ ids)
    have hnodup := (createNodes_eq_ok hcreate).nodup_ids
    have hfits := (connectFrom_isOk_iff hnodup).1 ⟨r, hconnect⟩
    exact ⟨ng, hcreate, hfits, (compileFrom_of_fits hcreate hfits).2.1 ⟨ids, hids⟩⟩
  · rintro ⟨ng, hcreate, hfits, hcycle⟩
    exact (compileFrom_of_fits hcreate hfits).2.2 hcycle

/-! ## A small graph -/

/-- A step that gives back its one argument, or nothing. -/
def relayStep : Step where
  schema := ⟨.ofList [("value", .ofType "INT")], .empty, .ofList [("context", .ofType "ANY")]⟩
  outputs := [.ofType "INT"]
  invoke params := pure (.plain (params.find? "value").toList)

/-- Knows relays only. -/
def relayCatalog : Catalog := fun type => if type = "relay" then some relayStep else none

/-- Three relays; the first one of the list reads from the second one. -/
def relayGraph : Graph where
  nodes := [
    ⟨"relay", some ⟨"late"⟩, none, [⟨"value", .empty⟩], [], .empty⟩,
    ⟨"relay", some ⟨"early"⟩, none, [], [], .empty⟩,
    ⟨"relay", some ⟨"spare"⟩, none, [], [], .empty⟩]
  links := [⟨none, ⟨"early"⟩, 0, ⟨"late"⟩, 0, .null⟩]
  extra := .empty

example : (compile relayCatalog relayGraph .default).toOption.map (fun p => p.inputs.keys) =
    some ["context", "value", "value_2"] := by rfl

end StepGraph.Plan
