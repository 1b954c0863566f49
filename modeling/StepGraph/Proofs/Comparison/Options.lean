import StepGraph.Proofs.Comparison.LinkOrder

/-!
# What is exported does not change what is computed

Export options decide which outputs are read at the end and what they are called. The registers they
are read from come after all others, and nothing else reads from them. So two compilations of a
graph with different options have the same nodes in the same order and the same exported inputs,
they make the same calls with the same arguments, and an output that both export has the same value
in both.
-/

namespace StepGraph.Plan

open Artifact

variable {start : Register} {catalog : Catalog} {g : Graph} {options : ExportOptions} {p p' : Plan}

/-- A compiled graph shows something if one of its stages does. -/
theorem isOutputNode_eq_any (h : compileFrom start catalog g options = .ok p) :
    p.isOutputNode = p.stages.any fun s => s.step.isOutputNode := by
  simp only [compileFrom, Except.bind_eq_ok_iff] at h
  obtain ⟨ng, -, ⟨ns, w⟩, -, order, horder, hp⟩ := h
  cases hp
  have hperm := pick_perm (schedule_isSchedule (scheduleNodes_eq_ok_iff.1 horder)).perm
  have hstages : (order.filterMap fun i =>
      (exportOutputs options ng.next ns).1[i]?.map Stage.ofNode) =
        (pick (exportOutputs options ng.next ns).1 order).map Stage.ofNode := by
    rw [pick, List.map_filterMap]
  simp only [hstages, List.any_map, ← hperm.any_eq]
  rfl

/-- Exported outputs that the same output of the same stage writes to are tied. -/
theorem NodeGraph.Mirrors.tied_of_writes {B : Register → Register → Prop} {ng ng' : NodeGraph}
    {options' : ExportOptions} {order order' : List Nat} (m : ng.Mirrors B ng')
    (h : ng.Represents catalog g) (h' : ng'.Represents catalog g)
    (hc : ng.Compiles g options order p) (hc' : ng'.Compiles g options' order' p')
    {o o' : ExportedOutput} (ho : o ∈ p.outputs) (ho' : o' ∈ p'.outputs) {i k : Nat}
    (hwrites : p.Writes i k o.register) (hwrites' : p'.Writes i k o'.register) :
    NodeGraph.Tied B ng g options ng' g options' o.register o'.register := by
  rw [hc.outputs] at ho
  rw [hc'.outputs] at ho'
  obtain ⟨x, hx, rfl⟩ := List.mem_map.1 ho
  obtain ⟨x', hx', rfl⟩ := List.mem_map.1 ho'
  obtain ⟨n, hn, -, hwire⟩ := (hc.writes_iff h).1 hwrites
  obtain ⟨n', hn', -, hwire'⟩ := (hc'.writes_iff h').1 hwrites'
  obtain ⟨hsource, hslot⟩ := (h.mem_wires_iff_of_export hc.fits hx).1 hwire
  obtain ⟨hsource', hslot'⟩ := (h'.mem_wires_iff_of_export hc'.fits hx').1 hwire'
  obtain rfl := m.order_eq (fun _ => Iff.rfl) hc hc'
  obtain ⟨m', hm', hmirrors⟩ := exists_getElem?_of_forall₂ (forall₂_pick m.nodes order) hn
  obtain rfl := Option.some.inj (hm'.symm.trans hn')
  refine Or.inr ⟨x, hx, x', hx', ⟨?_, ?_⟩, rfl, rfl⟩
  · rw [← hsource, ← hsource', hmirrors.id]
  · rw [← hslot, ← hslot']

/-- Whichever outputs of a graph are exported, it is compiled or not, its nodes run in the same
order, its exported inputs are the same, but for where their registers start, and it shows something
or not. The same calls of its steps are made with the same arguments. If both runs succeed, the same
is reported, and the exported outputs that the same output of the same stage writes to have the same
value. -/
theorem compileFrom_options_irrelevant (start start' : Register) (catalog : Catalog) (g : Graph)
    (options options' : ExportOptions) :
    ((∃ p, compileFrom start catalog g options = .ok p) ↔
      ∃ p, compileFrom start' catalog g options' = .ok p) ∧
    ∀ p p', compileFrom start catalog g options = .ok p →
      compileFrom start' catalog g options' = .ok p' →
        p.stages.map Stage.node = p'.stages.map Stage.node ∧
        SameEntries (Input.Mirrors (Register.Shifted start start')) p.inputs.entries
          p'.inputs.entries ∧
        p.isOutputNode = p'.isOutputNode ∧
        ∀ (a a' : Artifact), a.plan = p → a'.plan = p' → ∀ params,
          (∀ hook, (Call.reached ⟨a, hook, params⟩).map
              (fun c => (c.1.node, c.1.type, c.1.step, c.2)) =
            (Call.reached ⟨a', hook, params⟩).map
              fun c => (c.1.node, c.1.type, c.1.step, c.2)) ∧
          ∀ result result', (a.process params).outcome = .ok result →
            (a'.process params).outcome = .ok result' →
              result.ui = result'.ui ∧
              ∀ (i j : Nat) (o o' : ExportedOutput), p.outputs[i]? = some o →
                p'.outputs[j]? = some o' →
                (∃ s k, p.Writes s k o.register ∧ p'.Writes s k o'.register) →
                  result.values[i]? = result'.values[j]? := by
  have halike : g.Alike catalog g := Graph.alike_of_links_perm rfl (List.Perm.refl _)
  refine ⟨halike.compileFrom_isOk_iff start start' options options', fun p p' hp hp' => ?_⟩
  obtain ⟨ng, order, hcreate, h, hc⟩ := compiles_of_compileFrom_eq_ok hp
  obtain ⟨ng', order', hcreate', h', hc'⟩ := compiles_of_compileFrom_eq_ok hp'
  have m := NodeGraph.mirrors_of_createNodes hcreate hcreate'
  obtain ⟨-, hhidden, -⟩ := NodeGraph.madeAlike_of_createNodes hcreate hcreate'
  have hplan := m.plan h h' halike.links hc hc'
  refine ⟨hplan.map_node, ?_, ?_, ?_⟩
  · exact m.entries_inputs h h' halike (fun r r' hr => hr.1) hhidden hc hc'
  · have hany : ∀ stages : List Stage, (stages.any fun s => s.step.isOutputNode) =
        (stages.map Stage.step).any Step.isOutputNode := fun _ => List.any_map.symm
    rw [isOutputNode_eq_any hp, isOutputNode_eq_any hp', hany, hany, hplan.map_step]
  · rintro a a' rfl rfl params
    constructor
    · intro hook
      refine map_eq_map_iff_forall₂.2 ((reached_mirrors hplan hook params).imp fun c c' hcall => ?_)
      rw [hcall.1.node, hcall.1.type, hcall.1.step, hcall.2]
    · intro result result' hresult hresult'
      obtain ⟨hui, hvalues⟩ := results_mirror hplan hresult hresult'
      refine ⟨hui, ?_⟩
      rintro i j o o' hi hj ⟨s, k, hwrites, hwrites'⟩
      exact hvalues i j o o' hi hj (m.tied_of_writes h h' hc hc' (List.mem_of_getElem? hi)
        (List.mem_of_getElem? hj) hwrites hwrites')

/-- Exports what one of the relays gives, and nothing else. -/
def spareOptions : ExportOptions := ⟨some ["spare INT"], .empty⟩

/-- The spare relay is exported in the second place, or as the only one. -/
theorem relays_options_irrelevant :
    ∃ p p' result result', compileFrom .first relayCatalog relayGraph .default = .ok p ∧
      compileFrom ⟨7⟩ relayCatalog relayGraph spareOptions = .ok p' ∧
      ((Artifact.ofPlan "relays" p).process
        (.ofList [("value", .string "a"), ("value_2", .string "b")])).outcome = .ok result ∧
      ((Artifact.ofPlan "spare" p').process
        (.ofList [("value", .string "a"), ("value_2", .string "b")])).outcome = .ok result' ∧
      p.outputs.length = 2 ∧ p'.outputs.length = 1 ∧ result.values[1]? = result'.values[0]? := by
  obtain ⟨-, hcompiled⟩ := compileFrom_options_irrelevant .first ⟨7⟩ relayCatalog relayGraph
    .default spareOptions
  obtain ⟨-, -, -, hruns⟩ := hcompiled _ _ rfl rfl
  obtain ⟨-, hresults⟩ := hruns (Artifact.ofPlan "relays" _) (Artifact.ofPlan "spare" _) rfl rfl
    (.ofList [("value", .string "a"), ("value_2", .string "b")])
  obtain ⟨-, hvalues⟩ := hresults _ _ rfl rfl
  refine ⟨_, _, _, _, rfl, rfl, rfl, rfl, rfl, rfl, hvalues 1 0 _ _ rfl rfl ⟨2, 0, ?_, ?_⟩⟩
  · exact ⟨_, _, rfl, rfl, by decide⟩
  · exact ⟨_, _, rfl, rfl, by decide⟩

end StepGraph.Plan
