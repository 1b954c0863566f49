import StepGraph.Proofs.Comparison.Alike

/-!
# The order of the links does not matter

Links are wired one after the other, and the registers that an output writes to are listed in that
order. But which registers these are does not depend on it, and what a register holds in the end is
decided by the stages that write to it, in the order of the schedule, and by the places of their
outputs.
-/

namespace StepGraph.Plan

/-- Two graphs with the same links in another order are both compiled or none. If they are, their
nodes run in the same order, and their surfaces are the same, but for the registers, which lie
equally far behind the first ones; and they do the same with all parameters. -/
theorem compileFrom_links_perm (start start' : Register) (catalog : Catalog) (g g' : Graph)
    (options : ExportOptions) (hnodes : g.nodes = g'.nodes) (hlinks : g.links.Perm g'.links) :
    ((∃ p, compileFrom start catalog g options = .ok p) ↔
      ∃ p, compileFrom start' catalog g' options = .ok p) ∧
    ∀ p p', compileFrom start catalog g options = .ok p →
      compileFrom start' catalog g' options = .ok p' →
        p.stages.map Stage.node = p'.stages.map Stage.node ∧
        SameEntries (Input.Mirrors (Register.Shifted start start')) p.inputs.entries
          p'.inputs.entries ∧
        List.Forall₂ (fun o o' => o.name = o'.name ∧ o.typeTag = o'.typeTag ∧
          Register.Shifted start start' o.register o'.register) p.outputs p'.outputs ∧
        ∀ (a a' : Artifact), a.plan = p → a'.plan = p' → ∀ params,
          a.process params = a'.process params ∧ a.validate params = a'.validate params ∧
            a.fingerprint params = a'.fingerprint params := by
  have halike : g.Alike catalog g' := Graph.alike_of_links_perm hnodes hlinks
  refine ⟨halike.compileFrom_isOk_iff start start' options options, fun p p' hp hp' => ?_⟩
  obtain ⟨ng, order, hcreate, h, hc⟩ := compiles_of_compileFrom_eq_ok hp
  obtain ⟨ng', order', hcreate', h', hc'⟩ := compiles_of_compileFrom_eq_ok hp'
  rw [← hnodes] at hcreate'
  have m := NodeGraph.mirrors_of_createNodes hcreate hcreate'
  obtain ⟨-, hhidden, hnext⟩ := NodeGraph.madeAlike_of_createNodes hcreate hcreate'
  refine ⟨(m.plan h h' halike.links hc hc').map_node, ?_, ?_, ?_⟩
  · exact m.entries_inputs h h' halike (fun r r' hr => hr.1) hhidden hc hc'
  · exact m.outputs_shifted h h' halike hnext hc hc'
  · exact fun a a' ha ha' params => m.runs_eq h h' halike hc hc' ha ha' params

/-- One relay reads from both others, through one slot. -/
def junctionGraph : Graph :=
  { relayGraph with links := [⟨none, ⟨"early"⟩, 0, ⟨"late"⟩, 0, .null⟩,
      ⟨none, ⟨"spare"⟩, 0, ⟨"late"⟩, 0, .null⟩] }

/-- The relay gets the value of the one that runs last, not of the one that is linked last. -/
theorem junction_links_perm :
    junctionGraph.links.Perm junctionGraph.links.reverse ∧
    ∃ p p', compileFrom .first relayCatalog junctionGraph .default = .ok p ∧
      compileFrom ⟨7⟩ relayCatalog { junctionGraph with links := junctionGraph.links.reverse }
        .default = .ok p' ∧
      p.stages.map Stage.node = p'.stages.map Stage.node ∧
      (Artifact.ofPlan "reversed" p').process
          (.ofList [("value", .string "a"), ("value_2", .string "b")]) =
        pure ⟨[.string "b"], .empty⟩ := by
  have hperm : junctionGraph.links.Perm junctionGraph.links.reverse :=
    (List.reverse_perm _).symm
  obtain ⟨-, hcompiled⟩ := compileFrom_links_perm .first ⟨7⟩ relayCatalog junctionGraph
    { junctionGraph with links := junctionGraph.links.reverse } .default rfl hperm
  obtain ⟨hstages, -, -, hruns⟩ := hcompiled _ _ rfl rfl
  refine ⟨hperm, _, _, rfl, rfl, hstages, ?_⟩
  exact (hruns (Artifact.ofPlan "junction" _) (Artifact.ofPlan "reversed" _) rfl rfl _).1.symm

end StepGraph.Plan
