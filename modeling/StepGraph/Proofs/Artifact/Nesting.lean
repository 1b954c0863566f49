import StepGraph.Proofs.Artifact.Calls
import StepGraph.Proofs.Pipeline

/-!
# Artifacts inside artifacts

A step is composed of leaves if it is a leaf, or an artifact whose graph uses steps that are
composed of leaves. A call of an artifact nests the calls of those of its stages that are artifacts,
and these nest further calls.

The arguments of a stage are inputs that its step declares, so that a nested call never has a
parameter without an input. An artifact that succeeds returns a value for every output. So where an
output of an artifact was never written, the step that should have written it is a leaf.
-/

namespace StepGraph

open Plan

/-- Leaves, and artifacts that are built from such steps, to any depth. -/
inductive Step.Composed (leaf : Step → Prop) : Step → Prop
  | leaf {step : Step} (h : leaf step) : Composed leaf step
  | artifact {a : Artifact} (h : a.plan.BuiltFrom (Composed leaf)) : Composed leaf a.step

theorem Step.Composed.cases {leaf : Step → Prop} {step : Step} (h : Composed leaf step) :
    leaf step ∨ ∃ a : Artifact, a.step = step ∧ a.plan.BuiltFrom (Step.Composed leaf) := by
  cases h with
  | leaf h => exact Or.inl h
  | artifact h => exact Or.inr ⟨_, rfl, h⟩

/-! ## The stages of an artifact -/

theorem Plan.mem_names_of_mem_argumentMap {start : Register} {hidden : InputMap}
    {schema : InputSchema} {x : String} (h : x ∈ (argumentMap start hidden schema).keys) :
    x ∈ schema.names := by
  obtain ⟨e, he, rfl⟩ := List.mem_map.1 h
  rw [InputSchema.names_eq, ← map_name_freshInputs start, List.mem_append]
  rcases OrderedMap.mem_entries_insertAll he with he | he
  · simp at he
  rcases List.mem_append.1 he with he | he
  · obtain ⟨i, hi, rfl⟩ := List.mem_map.1 he
    exact Or.inl (List.mem_map_of_mem hi)
  · obtain ⟨f, hf, rfl⟩ := List.mem_map.1 he
    exact Or.inr (List.mem_map_of_mem hf)

namespace Plan.BuiltFrom

variable {P : Step → Prop} {p : Plan} {g : Stage}

/-- The step of a stage is one of those the plan is built from; what the stage reads the step
declares, and it writes the outputs of the step. -/
theorem of_mem_stages (h : p.BuiltFrom P) (hg : g ∈ p.stages) :
    P g.step ∧ (∀ x ∈ g.inputMap.keys, x ∈ g.step.schema.names) ∧
      g.outputs.length = g.step.outputs.length := by
  obtain @⟨start, catalog, graph, options, p, hsteps, hcompile, rs⟩ := h
  obtain ⟨ng, order, -, hrepresents, hcompiles⟩ := compiles_of_compileFrom_eq_ok hcompile
  rw [(reshapeAll_keeps _ rs).1, hcompiles.stages_eq] at hg
  obtain ⟨n, hn, rfl⟩ := List.mem_map.1 hg
  obtain ⟨v, hv, first, hmakes⟩ :=
    hrepresents.exists_makes (hcompiles.pick_nodes_perm.mem_iff.1 hn)
  obtain ⟨hsaved, hstep⟩ := Graph.mem_verticesFrom hv
  have hsame : (ng.stage graph options n).step = v.step := hmakes.step
  rw [hsame]
  refine ⟨hsteps v.saved hsaved v.step hstep, ?_, ?_⟩
  · intro x hx
    have hmap : (ng.stage graph options n).inputMap = _ := hmakes.inputMap
    rw [hmap] at hx
    exact mem_names_of_mem_argumentMap hx
  · rw [← hmakes.length_outputs]
    simp [NodeGraph.stage, Stage.ofNode, Node.attach]

end Plan.BuiltFrom

namespace Artifact

/-- An artifact returns a value for every output. -/
theorem length_values_of_invoke {a : Artifact} {params : Params} {output : StepOutput}
    (h : (a.step.invoke params).outcome = .ok output) :
    output.values.length = a.step.outputs.length := by
  obtain ⟨result, hresult, h⟩ := Run.outcome_bind_eq_ok_iff.1 h
  cases h
  rw [StepOutput.values, length_values_of_process hresult]
  exact (List.length_map ..).symm

/-- What a stage that is reached reads from: a store in which nothing has changed but what stages
write. -/
theorem of_mem_reachedFrom {hook : Hook} {stages : List Stage} {s : Store} {g : Stage}
    {args : Params} (h : (g, args) ∈ reachedFrom hook stages s) :
    g ∈ stages ∧ ∃ t, args = g.arguments t ∧
      ∀ r, (∀ m ∈ stages, ¬ m.WritesTo r) → t.find? r = s.find? r := by
  induction stages generalizing s with
  | nil => simp [reachedFrom] at h
  | cons m stages ih =>
      by_cases hhook : m.hasHook hook = true
      · cases hnext : m.next? s hook with
        | none =>
            rw [reachedFrom_of_next_none hhook hnext, List.mem_singleton] at h
            cases h
            exact ⟨List.mem_cons_self .., s, rfl, fun _ _ => rfl⟩
        | some s' =>
            rw [reachedFrom_of_next hhook hnext] at h
            rcases List.mem_cons.1 h with h | h
            · cases h
              exact ⟨List.mem_cons_self .., s, rfl, fun _ _ => rfl⟩
            · obtain ⟨hg, t, hargs, hkeeps⟩ := ih h
              refine ⟨List.mem_cons_of_mem m hg, t, hargs, fun r hr => ?_⟩
              obtain ⟨hfirst, hrest⟩ := List.forall_mem_cons.1 hr
              rw [hkeeps r hrest, Stage.find?_of_next? hnext hfirst]
      · rw [reachedFrom_of_not_hook hhook] at h
        obtain ⟨hg, t, hargs, hkeeps⟩ := ih h
        refine ⟨List.mem_cons_of_mem m hg, t, hargs, fun r hr => ?_⟩
        exact hkeeps r (List.forall_mem_cons.1 hr).2

namespace Call

/-- The call of `c` calls the artifact of `d` as one of its stages. -/
def Nests (leaf : Step → Prop) (c d : Call) : Prop :=
  ∃ g, (g, d.params) ∈ c.reached ∧ d.hook = c.hook ∧ d.artifact.step = g.step ∧
    d.artifact.plan.BuiltFrom (Step.Composed leaf)

/-- The output of this name is written by one output of one stage, and the step of that stage is a
leaf that has returned too few values. -/
def LeftEmpty (leaf : Step → Prop) (c : Call) (x : String) : Prop :=
  ∃ o ∈ c.artifact.plan.outputs, o.name = x ∧ ∃ i k,
    (∀ j m, c.artifact.plan.Writes j m o.register ↔ j = i ∧ m = k) ∧
    ∃ g args output, c.artifact.plan.stages[i]? = some g ∧ c.reached[i]? = some (g, args) ∧
      leaf g.step ∧ (g.step.invoke args).outcome = .ok output ∧
      output.values.length ≤ k ∧ k < g.step.outputs.length

variable {leaf : Step → Prop} {c d : Call}

theorem of_mem_reached {g : Stage} {args : Params} (h : (g, args) ∈ c.reached) :
    g ∈ c.artifact.plan.stages ∧ ∃ t, args = g.arguments t := by
  rw [reached] at h
  split at h
  · obtain ⟨hg, t, hargs, -⟩ := of_mem_reachedFrom h
    exact ⟨hg, t, hargs⟩
  · simp at h

/-- A nested call has no parameter without an input. -/
theorem Nests.declared (h : c.Nests leaf d) {P : Step → Prop} (hc : c.artifact.plan.BuiltFrom P) :
    d.Declared := by
  obtain ⟨g, hmem, -, hstep, -⟩ := h
  obtain ⟨hg, t, hargs⟩ := of_mem_reached hmem
  intro x hx
  rw [hargs] at hx
  have hname := (hc.of_mem_stages hg).2.1 x (OrderedMap.mem_keys_of_mem_keys_filterMap hx)
  rw [← hstep] at hname
  exact d.artifact.names_schema_perm.mem_iff.1 hname

theorem declared_of_reflTransGen (h : Relation.ReflTransGen (Nests leaf) c d)
    (hbuilt : c.artifact.plan.BuiltFrom (Step.Composed leaf)) (hdeclared : c.Declared) :
    d.artifact.plan.BuiltFrom (Step.Composed leaf) ∧ d.Declared := by
  induction h with
  | refl => exact ⟨hbuilt, hdeclared⟩
  | tail _ hnests ih =>
      have hdeclared := hnests.declared ih.1
      obtain ⟨-, -, -, -, hbuilt⟩ := hnests
      exact ⟨hbuilt, hdeclared⟩

/-- An output that was not written should have been written by a leaf. -/
theorem leftEmpty_of_find?_eq_none (hbuilt : c.artifact.plan.BuiltFrom (Step.Composed leaf))
    {s s' : Store} {ui : UiMap}
    (hreached : c.reached = reachedFrom .invoke c.artifact.plan.stages s)
    (hrun : (processStages c.artifact.plan.stages s .empty).outcome = .ok (s', ui))
    {o : ExportedOutput} (ho : o ∈ c.artifact.plan.outputs) (hempty : s'.find? o.register = none) :
    c.LeftEmpty leaf o.name := by
  obtain ⟨⟨⟨i, k⟩, hwrites, hunique⟩, -⟩ := hbuilt.pipelined.exported o ho
  refine ⟨o, ho, rfl, i, k, fun j m => ⟨fun h => Prod.mk.inj (hunique (j, m) h), ?_⟩, ?_⟩
  · rintro ⟨rfl, rfl⟩
    exact hwrites
  obtain ⟨g, registers, hg, hregisters, hr⟩ := hwrites
  obtain ⟨hstages, -, hwritten⟩ := of_processStages_eq_ok hrun
  -- every stage is reached, so that the one which writes the output is
  obtain ⟨args, hargs⟩ : ∃ args, c.reached[i]? = some (g, args) := by
    rw [← hreached] at hstages
    rw [← hstages, List.getElem?_map] at hg
    obtain ⟨⟨_, args⟩, hargs, rfl⟩ := Option.map_eq_some_iff.1 hg
    exact ⟨args, hargs⟩
  obtain ⟨output, houtput, hfilled⟩ := hwritten g args (hreached ▸ List.mem_of_getElem? hargs)
  obtain ⟨hcomposed, -, hlength⟩ := hbuilt.of_mem_stages (List.mem_of_getElem? hg)
  have hk : k < g.step.outputs.length := hlength ▸ (List.getElem?_eq_some_iff.1 hregisters).1
  have hfew : output.values.length ≤ k := by
    by_contra hlt
    exact hfilled k registers _ hregisters hr (Nat.not_le.1 hlt) hempty
  refine ⟨g, args, output, hg, hargs, ?_, houtput, hfew, hk⟩
  rcases hcomposed.cases with hleaf | ⟨b, hb, -⟩
  · exact hleaf
  · rw [← hb] at houtput hk
    exact absurd (length_values_of_invoke houtput) (by omega)

/-- A call whose parameters all have inputs fails because a stage fails, or because a leaf has
returned too few values. -/
theorem cases_of_error_of_builtFrom (hbuilt : c.artifact.plan.BuiltFrom (Step.Composed leaf))
    (hdeclared : c.Declared) {e : RunError} (he : c.run.outcome = .error e) :
    (∃ g args cause, (g, args) ∈ c.reached ∧ (g.step.call args c.hook).outcome = .error cause ∧
        e = .within c.hook g.node g.type cause) ∨
      ∃ x, e = .missingOutput x ∧ c.LeftEmpty leaf x := by
  rcases cases_of_error hdeclared he with
    ⟨g, args, hmem, hstage⟩ | ⟨s, s', ui, -, hreached, hrun, o, ho, rfl, hempty⟩
  · obtain ⟨cause, hcause, rfl⟩ := Stage.exists_cause hstage
    exact Or.inl ⟨g, args, cause, hmem, hcause, rfl⟩
  · exact Or.inr ⟨o.name, rfl, leftEmpty_of_find?_eq_none hbuilt hreached hrun ho hempty⟩

end Call

/-- What holds of every artifact that is built from leaves, at whatever depth. It declares every
exported input once and gives its outputs distinct names; what it returns has a value for every
output; and if it is called with parameters that it declares, then of all the calls nested in this
one none has an unexpected parameter, an output that is missing should have been written by a leaf
that returned too few values, and any other failure is that of a stage. The stages that a call
reaches account for all that it records. -/
theorem composed_honours_contract (leaf : Step → Prop) (a : Artifact)
    (h : a.plan.BuiltFrom (Step.Composed leaf)) :
    (a.step.schema.entries.Perm (a.plan.inputs.entries.map Surface.declaration) ∧
        a.step.schema.names.Nodup ∧ (a.step.outputs.map OutputSpec.name).Nodup) ∧
      (∀ params output, (a.step.invoke params).outcome = .ok output →
        output.values.length = a.step.outputs.length) ∧
      ∀ c : Call, c.artifact = a → c.Declared → ∀ d, Relation.ReflTransGen (Call.Nests leaf) c d →
        (∀ x, d.run.outcome ≠ .error (.unexpectedParameter x)) ∧
          (∀ x, d.run.outcome = .error (.missingOutput x) → d.LeftEmpty leaf x) ∧
          (∀ e, d.run.outcome = .error e → (∀ x, e ≠ .missingOutput x) →
            ∃ g args cause, (g, args) ∈ d.reached ∧
              (g.step.call args d.hook).outcome = .error cause ∧
              e = .within d.hook g.node g.type cause) ∧
          d.run.calls = (callAll d.hook d.reached).calls := by
  refine ⟨⟨a.entries_schema_perm, a.nodup_names_schema, ?_⟩,
    fun params output => length_values_of_invoke, ?_⟩
  · simpa [step, Function.comp_def] using h.nodup_names
  rintro c rfl hdeclared d hd
  obtain ⟨hbuilt, hdeclared⟩ := Call.declared_of_reflTransGen hd h hdeclared
  refine ⟨?_, ?_, ?_, d.calls_run⟩
  · intro x hx
    rcases Call.cases_of_error_of_builtFrom hbuilt hdeclared hx with
      ⟨g, args, cause, -, -, he⟩ | ⟨y, he, -⟩ <;> cases he
  · intro x hx
    rcases Call.cases_of_error_of_builtFrom hbuilt hdeclared hx with
      ⟨g, args, cause, -, -, he⟩ | ⟨y, he, hempty⟩
    · cases he
    · cases he
      exact hempty
  · intro e he hne
    rcases Call.cases_of_error_of_builtFrom hbuilt hdeclared he with hstage | ⟨x, hx, -⟩
    · exact hstage
    · exact absurd hx (hne x)

/-- The relays, merged and renamed, as one artifact. -/
def relayArtifact : Artifact :=
  ofPlan "relays" (((compileFrom .first relayCatalog relayGraph .default).toOption.getD
    ⟨[], .empty, [], false⟩).reshapeAll relayReshapings)

/-- Knows relays and the artifact of them. -/
def boxCatalog : Catalog := fun type =>
  if type = "relays" then some relayArtifact.step else relayCatalog type

/-- A relay before the artifact of relays. -/
def boxGraph : Graph where
  nodes := [
    ⟨"relays", some ⟨"box"⟩, none, [⟨"start", .empty⟩], [], .empty⟩,
    ⟨"relay", some ⟨"first"⟩, none, [], [], .empty⟩]
  links := [⟨none, ⟨"first"⟩, 0, ⟨"box"⟩, 0, .null⟩]
  extra := .empty

theorem composed_of_relayCatalog {type : String} {step : Step}
    (h : relayCatalog type = some step) : Step.Composed (· = relayStep) step := by
  rw [relayCatalog] at h
  split at h
  · cases h
    exact .leaf rfl
  · cases h

theorem builtFrom_relayArtifact : relayArtifact.plan.BuiltFrom (Step.Composed (· = relayStep)) :=
  @Plan.BuiltFrom.intro _ .first relayCatalog relayGraph .default _
    (fun _ _ _ h => composed_of_relayCatalog h) rfl relayReshapings

theorem composed_of_boxCatalog {type : String} {step : Step} (h : boxCatalog type = some step) :
    Step.Composed (· = relayStep) step := by
  rw [boxCatalog] at h
  split at h
  · cases h
    exact .artifact builtFrom_relayArtifact
  · exact composed_of_relayCatalog h

/-- Without a value for the outer relay, it is a relay inside that leaves an output empty. -/
theorem box_honours_contract :
    ∃ p, compileFrom .first boxCatalog boxGraph .default = .ok p ∧
      (ofPlan "box" p).plan.BuiltFrom (Step.Composed (· = relayStep)) ∧
      Call.Declared ⟨ofPlan "box" p, .invoke, .empty⟩ ∧
      Call.Nests (· = relayStep) ⟨ofPlan "box" p, .invoke, .empty⟩
        ⟨relayArtifact, .invoke, .empty⟩ ∧
      Call.LeftEmpty (· = relayStep) ⟨relayArtifact, .invoke, .empty⟩ "INT" := by
  obtain ⟨p, hp⟩ : ∃ p, compileFrom .first boxCatalog boxGraph .default = .ok p := ⟨_, rfl⟩
  have hbuilt : p.BuiltFrom (Step.Composed (· = relayStep)) :=
    .intro (fun n _ step hstep => composed_of_boxCatalog hstep) hp []
  have hdeclared : Call.Declared ⟨ofPlan "box" p, .invoke, .empty⟩ := by
    intro x hx
    cases hx
  have hnests : Call.Nests (· = relayStep) ⟨ofPlan "box" p, .invoke, .empty⟩
      ⟨relayArtifact, .invoke, .empty⟩ := by
    cases hp
    exact ⟨_, List.mem_cons_of_mem _ (List.mem_cons_self ..), rfl, rfl, builtFrom_relayArtifact⟩
  have hmissing := ((composed_honours_contract _ (ofPlan "box" p) hbuilt).2.2 _ rfl hdeclared _
    (Relation.ReflTransGen.single hnests)).2.1
  exact ⟨p, hp, hbuilt, hdeclared, hnests, hmissing "INT" rfl⟩

end Artifact

end StepGraph
