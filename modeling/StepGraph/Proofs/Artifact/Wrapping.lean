import StepGraph.Proofs.Artifact.Reshaping
import StepGraph.Proofs.Artifact.Single

/-!
# Wrapping an artifact

An artifact can be the only step of a graph. What that graph is compiled into declares the inputs
and the outputs of the artifact again, and it does what the artifact does: the one stage gets every
parameter as the argument of that name, the artifact fills its registers from them in the same way,
and what it returns is written to the registers that are read at the end.
-/

namespace StepGraph

open Plan

/-- The runs make the same calls, and one succeeds exactly if the other does, with the same
value. -/
structure Run.Agrees {α : Type} (x y : Run α) : Prop where
  calls : x.calls = y.calls
  outcome : ∀ a, x.outcome = .ok a ↔ y.outcome = .ok a

namespace Run

variable {α : Type}

theorem Agrees.refl (x : Run α) : x.Agrees x := ⟨rfl, fun _ => Iff.rfl⟩

theorem agrees_mapError (f : RunError → RunError) (x : Run α) : (x.mapError f).Agrees x :=
  ⟨rfl, fun _ => Except.mapError_eq_ok_iff⟩

end Run

/-- New channels are added as they are. -/
theorem UiMap.foldl_append_of_nodup {es : List (String × List Json)} {m : UiMap}
    (h : (m.keys ++ Entries.keys es).Nodup) :
    es.foldl (fun ui e => UiMap.append ui e.1 e.2) m = m.insertAll es := by
  induction es generalizing m with
  | nil => rfl
  | cons e es ih =>
      have hnew : e.1 ∉ m.keys := fun hk =>
        (List.nodup_append.1 h).2.2 e.1 hk e.1 (List.mem_cons_self ..) rfl
      have hinsert : UiMap.append m e.1 e.2 = m.insert e.1 e.2 := by
        rw [UiMap.append, OrderedMap.find?_eq_none_iff.2 hnew]
        rfl
      rw [List.foldl_cons, hinsert, ih, OrderedMap.insertAll_cons]
      rw [OrderedMap.keys_insert_of_not_mem hnew, List.append_assoc]
      exact h

/-- Adding a report to an empty one gives the report, its channels in their order. -/
theorem UiMap.empty_merge (ui : UiMap) : UiMap.merge .empty ui = ui := by
  have hnodup : (OrderedMap.keys (.empty : UiMap) ++ Entries.keys ui.entries).Nodup := ui.nodup_keys
  rw [UiMap.merge, foldl_append_of_nodup hnodup]
  exact OrderedMap.ext_entries (OrderedMap.entries_ofList_of_nodup ui.nodup_keys)

namespace Artifact

/-- Parameters with the same values under the same names do the same, in whatever order. -/
theorem runs_eq_of_find?_eq {a : Artifact} {params params' : Params}
    (hnodup : (Surface.registers a.plan.inputs).Nodup)
    (hparams : ∀ x ∈ params.keys, x ∈ a.plan.inputs.keys)
    (h : ∀ x, params'.find? x = params.find? x) :
    a.process params' = a.process params ∧ a.validate params' = a.validate params ∧
      a.fingerprint params' = a.fingerprint params := by
  have hparams' : ∀ x ∈ params'.keys, x ∈ a.plan.inputs.keys := by
    intro x hx
    refine hparams x ?_
    rwa [OrderedMap.mem_keys_iff, ← h, ← OrderedMap.mem_keys_iff]
  obtain ⟨s, hs, howned, hothers⟩ := Store.exists_seed hnodup hparams
  obtain ⟨s', hs', howned', hothers'⟩ := Store.exists_seed hnodup hparams'
  refine runs_eq_of_agrees rfl rfl hs hs' fun r => ?_
  by_cases hr : r ∈ Surface.registers a.plan.inputs
  · obtain ⟨x, i, hi, hri⟩ := exists_owns_iff.2 hr
    rw [howned x i r hi hri, howned' x i r hi hri, h]
  · rw [hothers r hr, hothers' r hr]

theorem validateStages_singleton (s : Store) (g : Stage) : validateStages s [g] = g.validate s := by
  rw [validateStages]
  obtain ⟨calls, outcome⟩ := g.validate s
  cases outcome with
  | error e => rfl
  | ok v => cases v <;> simp [Bind.bind, Run.bind, validateStages, pure, Run.pure]

theorem validateStages_of_validates {s : Store} {stages : List Stage}
    (h : ∀ g ∈ stages, g.step.validates = false) : validateStages s stages = pure .valid := by
  induction stages with
  | nil => rfl
  | cons g stages ih =>
      obtain ⟨hg, hstages⟩ := List.forall_mem_cons.1 h
      have hvalid : g.validate s = pure .valid := by simp [Stage.validate, hg]
      rw [validateStages, hvalid, pure_bind]
      exact ih hstages

theorem fingerprintStages_singleton (s : Store) (g : Stage) :
    fingerprintStages s [g] = g.fingerprint s := by
  rw [fingerprintStages]
  obtain ⟨calls, outcome⟩ := g.fingerprint s
  cases outcome with
  | error e => rfl
  | ok text => simp [Bind.bind, Run.bind, fingerprintStages, pure, Run.pure]

end Artifact

namespace Plan

/-- Values that are written to one register each are read again from these registers. -/
theorem Stage.readOutputs_write {os : List ExportedOutput}
    (hnodup : (os.map ExportedOutput.register).Nodup) {values : List Json}
    (hlength : values.length = os.length) (s : Store) :
    Artifact.readOutputs (Stage.write (os.map fun o => [o.register]) values s) os = .ok values := by
  induction os generalizing values s with
  | nil =>
      obtain rfl := List.length_eq_zero_iff.1 hlength
      rfl
  | cons o os ih =>
      obtain ⟨hnew, hnodup⟩ := List.nodup_cons.1 hnodup
      obtain ⟨value, values, rfl⟩ := List.exists_cons_of_length_eq_add_one hlength
      have hothers : ∀ registers ∈ os.map (fun o => [o.register]), o.register ∉ registers := by
        intro registers hregisters hr
        obtain ⟨x, hx, rfl⟩ := List.mem_map.1 hregisters
        exact hnew (List.mem_singleton.1 hr ▸ List.mem_map_of_mem hx)
      have hfind : (Stage.write (os.map fun o => [o.register]) values
          (s.setAll [o.register] value)).find? o.register = some value := by
        rw [Stage.find?_write_of_not_mem hothers, Store.find?_setAll, if_pos (by simp)]
      have hrest := ih hnodup (Nat.succ.inj hlength) (s.setAll [o.register] value)
      rw [List.map_cons, Stage.write, Artifact.readOutputs, hfind, hrest]
      rfl

section

variable {p : Plan} {g : Stage} {s : Store} {params : Params} (h : p.RunsOnly g)

include h

theorem RunsOnly.find?_inputMap (x : String) :
    g.inputMap.find? x = (p.inputs.find? x).map Input.register := by
  refine Option.ext fun r => ?_
  rw [OrderedMap.find?_eq_some_iff, h.reads.mem_iff, List.mem_map, Option.map_eq_some_iff]
  constructor
  · rintro ⟨⟨x, i⟩, hi, heq⟩
    obtain ⟨rfl, rfl⟩ := Prod.mk.inj heq
    exact ⟨i, OrderedMap.find?_eq_some_iff.2 hi, rfl⟩
  · rintro ⟨i, hi, rfl⟩
    exact ⟨(x, i), OrderedMap.find?_eq_some_iff.1 hi, rfl⟩

theorem RunsOnly.keys_perm : p.inputs.keys.Perm g.step.schema.names := by
  have hnames := congrArg (List.map fun d => d.2.1) h.inputs
  rw [List.map_map, List.map_append, List.map_map] at hnames
  rw [InputSchema.names_eq]
  exact (List.Perm.of_eq hnames).trans List.perm_append_comm

/-- The step gets every parameter as the argument of that name. -/
theorem RunsOnly.find?_arguments
    (hone : ∀ x i, p.inputs.find? x = some i → i.registers = [i.register])
    (hparams : ∀ x ∈ params.keys, x ∈ p.inputs.keys)
    (hs : ∀ x i r, p.inputs.find? x = some i → r ∈ i.registers → s.find? r = params.find? x)
    (x : String) : (g.arguments s).find? x = params.find? x := by
  rw [Stage.find?_arguments, h.find?_inputMap]
  cases hx : p.inputs.find? x with
  | some i =>
      have hr : i.register ∈ i.registers := by simp [hone x i hx]
      exact hs x i i.register hx hr
  | none =>
      have hnone : params.find? x = none := by
        rw [OrderedMap.find?_eq_none_iff]
        exact fun hmem => OrderedMap.find?_eq_none_iff.1 hx (hparams x hmem)
      rw [hnone]
      rfl

end

/-! ## The one stage -/

section

variable {a b : Artifact} {g : Stage} {s : Store} {params : Params} (h : b.plan.RunsOnly g)
  (hstep : g.step = a.step) (hs : Store.seed b.plan.inputs params = .ok s)

include h hstep

theorem RunsOnly.validates_eq : b.step.validates = a.step.validates := by
  change b.plan.stages.any _ = _
  rw [h.stages, ← hstep]
  exact Bool.or_false _

theorem RunsOnly.detectsChange_eq : b.step.detectsChange = a.step.detectsChange := by
  change b.plan.stages.any _ = _
  rw [h.stages, ← hstep]
  exact Bool.or_false _

include hs

theorem RunsOnly.process_eq (hargs : a.process (g.arguments s) = a.process params)
    (hdistinct : (b.plan.outputs.map ExportedOutput.register).Nodup) :
    b.process params = (a.process params).mapError (.within .invoke g.node g.type) := by
  rw [Artifact.process, hs, h.stages, Run.ofExcept_ok, pure_bind, Artifact.processStages,
    Stage.process, hstep, h.writes]
  have hinvoke : a.step.invoke (g.arguments s) =
      a.process params >>= fun result => pure (.structured result.values result.ui) := by
    rw [← hargs]
    rfl
  rw [hinvoke]
  rcases hrun : a.process params with ⟨calls, outcome⟩
  cases outcome with
  | error e => rfl
  | ok result =>
      have hlength : result.values.length = b.plan.outputs.length := by
        have houtputs := congrArg List.length h.outputs
        rw [hstep, List.length_map] at houtputs
        rw [houtputs, Artifact.length_values_of_process (congrArg Run.outcome hrun)]
        exact (List.length_map ..).symm
      have hread := Stage.readOutputs_write hdistinct hlength s
      simp only [Bind.bind, Run.bind, Run.mapError, Except.mapError_ok, pure, Run.pure,
        Artifact.processStages, StepOutput.values, StepOutput.ui, UiMap.empty_merge, hread,
        Run.ofExcept, List.append_nil]

theorem RunsOnly.agrees_validate (hargs : a.validate (g.arguments s) = a.validate params)
    (hparams : ∃ t, Store.seed a.plan.inputs params = .ok t) :
    (b.validate params).Agrees (a.validate params) := by
  rw [Artifact.validate, hs, h.stages, Run.ofExcept_ok, pure_bind,
    Artifact.validateStages_singleton, Stage.validate, hstep]
  split
  · rw [← hargs]
    exact Run.agrees_mapError _ _
  · next hnone =>
    -- the artifact is not asked, and if it were it would accept
    obtain ⟨t, ht⟩ := hparams
    have hstages : ∀ g ∈ a.plan.stages, g.step.validates = false := by
      simpa [Artifact.step] using hnone
    rw [Artifact.validate, ht, Run.ofExcept_ok, pure_bind,
      Artifact.validateStages_of_validates hstages]
    exact Run.Agrees.refl _

theorem RunsOnly.agrees_fingerprint (hargs : a.fingerprint (g.arguments s) = a.fingerprint params)
    (hparams : ∃ t, Store.seed a.plan.inputs params = .ok t) :
    (b.fingerprint params).Agrees (a.fingerprint params) := by
  rw [Artifact.fingerprint, hs, h.stages, Run.ofExcept_ok, pure_bind]
  by_cases hdetects : g.step.detectsChange = true
  · rw [List.filter_cons_of_pos (by simpa using hdetects), List.filter_nil,
      Artifact.fingerprintStages_singleton, Stage.fingerprint, hstep, ← hargs]
    exact Run.agrees_mapError _ _
  · obtain ⟨t, ht⟩ := hparams
    have hstages : a.plan.stages.filter (fun g => g.step.detectsChange) = [] := by
      rw [hstep] at hdetects
      simpa [Artifact.step, List.filter_eq_nil_iff] using hdetects
    rw [List.filter_cons_of_neg (by simpa using hdetects), List.filter_nil, Artifact.fingerprint,
      ht, Run.ofExcept_ok, pure_bind, hstages]
    exact Run.Agrees.refl _

end

/-- What declares the inputs of an artifact and runs only this artifact does what the artifact does,
with any parameters. -/
theorem RunsOnly.runs_agree {a b : Artifact} {g : Stage} (h : b.plan.RunsOnly g)
    (hstep : g.step = a.step) (ha : a.plan.Pipelined) (hb : b.plan.Pipelined)
    (hone : ∀ x i, b.plan.inputs.find? x = some i → i.registers = [i.register])
    (params : Params) :
    (b.process params).Agrees (a.process params) ∧ (b.validate params).Agrees (a.validate params) ∧
      (b.fingerprint params).Agrees (a.fingerprint params) := by
  have hkeys : ∀ x, x ∈ b.plan.inputs.keys ↔ x ∈ a.plan.inputs.keys := by
    intro x
    have hperm := h.keys_perm
    rw [hstep] at hperm
    exact (hperm.trans a.names_schema_perm).mem_iff
  by_cases hparams : ∀ x ∈ params.keys, x ∈ b.plan.inputs.keys
  · obtain ⟨s, hs, howned, -⟩ := Store.exists_seed hb.nodup hparams
    have hargs := h.find?_arguments hone hparams howned
    have hparams' : ∀ x ∈ params.keys, x ∈ a.plan.inputs.keys :=
      fun x hx => (hkeys x).1 (hparams x hx)
    obtain ⟨hprocess, hvalidate, hfingerprint⟩ :=
      Artifact.runs_eq_of_find?_eq ha.nodup hparams' hargs
    have hseed := Store.seed_isOk_iff.2 hparams'
    refine ⟨?_, h.agrees_validate hstep hs hvalidate hseed,
      h.agrees_fingerprint hstep hs hfingerprint hseed⟩
    rw [h.process_eq hstep hs hprocess hb.distinct]
    exact Run.agrees_mapError _ _
  · cases hs : Store.seed b.plan.inputs params with
    | ok s => exact absurd (Store.seed_isOk_iff.1 ⟨s, hs⟩) hparams
    | error e =>
        have hs' := (Store.seed_eq_error_congr hkeys).1 hs
        simp only [Artifact.process, Artifact.validate, Artifact.fingerprint, hs, hs']
        exact ⟨⟨rfl, fun _ => Iff.rfl⟩, ⟨rfl, fun _ => Iff.rfl⟩, ⟨rfl, fun _ => Iff.rfl⟩⟩

/-- Let `w` be what a graph of one node is compiled into, the node being an artifact that is left as
it is. Then `w` has the inputs of the artifact, the hidden ones first, the required ones next and
the optional ones last, it has the outputs of the artifact in their order, and whatever is made of
`w` shows, runs, checks and names itself as the artifact does. -/
theorem wrapping_agrees (start : Register) (catalog : Catalog) (g : Graph)
    (options : ExportOptions) (p : Plan) (h : compileFrom start catalog g options = .ok p)
    (rs : List Reshaping) (a : Artifact) (ha : a.plan = p.reshapeAll rs) (start' : Register)
    (catalog' : Catalog) (n : Graph.Node) (extra : OrderedMap String Json) (hslots : n.slots = [])
    (hvalues : n.values = []) (hstep : catalog' n.type = some a.step) :
    ∃ w, compileFrom start' catalog' ⟨[n], [], extra⟩ .default = .ok w ∧
      w.inputs.entries.map Surface.declaration =
        ([.hidden, .required, .optional] : List InputGroup).flatMap (fun group =>
          (a.plan.inputs.entries.map Surface.declaration).filter fun d => d.1 = group) ∧
      ∀ b : Artifact, b.plan = w →
        b.step.outputs = a.step.outputs ∧ b.step.isOutputNode = a.step.isOutputNode ∧
          b.step.validates = a.step.validates ∧ b.step.detectsChange = a.step.detectsChange ∧
          ∀ params, (b.process params).Agrees (a.process params) ∧
            (b.validate params).Agrees (a.validate params) ∧
            (b.fingerprint params).Agrees (a.fingerprint params) := by
  have hbuilt : a.plan.BuiltFrom fun _ => True := ha ▸ .intro (fun _ _ _ _ => trivial) h rs
  have hnames : (a.step.outputs.map OutputSpec.name).Nodup := by
    simpa [Artifact.step, Function.comp_def] using hbuilt.nodup_names
  obtain ⟨w, stage, hw, hstage, hruns⟩ :=
    exists_runsOnly start' extra hslots hvalues hstep a.nodup_names_schema hnames
  obtain ⟨ng', order', -, hrepresents', hcompiles'⟩ := compiles_of_compileFrom_eq_ok hw
  refine ⟨w, hw, ?_, ?_⟩
  · have hhidden := a.map_entries_inGroup_schema .hidden
    have hrequired := a.map_entries_inGroup_schema .required
    have hoptional := a.map_entries_inGroup_schema .optional
    simp only [List.flatMap_cons, List.flatMap_nil, List.append_nil, ← hhidden, ← hrequired,
      ← hoptional]
    rw [hruns.inputs, hstage]
    rfl
  · rintro b rfl
    have hpipelined' := hcompiles'.pipelined hrepresents' rfl rfl (Surface.Keeps.refl _)
    refine ⟨hruns.outputs.trans (congrArg Step.outputs hstage),
      hruns.isOutputNode.trans (congrArg Step.isOutputNode hstage), hruns.validates_eq hstage,
      hruns.detectsChange_eq hstage, hruns.runs_agree hstage hbuilt.pipelined hpipelined' ?_⟩
    exact fun x i hi => hcompiles'.registers_eq_singleton hrepresents' hi

/-- Knows one artifact, as the type `inner`. -/
def innerCatalog (a : Artifact) : Catalog := fun type =>
  if type = "inner" then some a.step else none

/-- The relays after their merges and renamings, as a step of their own. -/
theorem relays_wrapping_agrees :
    ∃ p w, compileFrom .first relayCatalog relayGraph .default = .ok p ∧
      compileFrom .first (innerCatalog (Artifact.ofPlan "relays" (p.reshapeAll relayReshapings)))
        ⟨[⟨"inner", none, none, [], [], .empty⟩], [], .empty⟩ .default = .ok w ∧
      w.inputs.entries.map Surface.declaration =
        [(.hidden, "context", .ofType "ANY"), (.required, "start", .ofType "INT")] ∧
      (∀ params, ((Artifact.ofPlan "outer" w).process params).Agrees
        ((Artifact.ofPlan "relays" (p.reshapeAll relayReshapings)).process params)) ∧
      (Artifact.ofPlan "outer" w).process (.ofList [("start", .string "both")]) =
        pure ⟨[.string "both", .string "both"], .empty⟩ := by
  obtain ⟨w, hw, -, hruns⟩ := wrapping_agrees .first relayCatalog relayGraph .default _ rfl
    relayReshapings (Artifact.ofPlan "relays" _) rfl .first (innerCatalog _)
    ⟨"inner", none, none, [], [], .empty⟩ .empty rfl rfl rfl
  cases hw
  exact ⟨_, _, rfl, rfl, rfl, fun params => ((hruns _ rfl).2.2.2.2 params).1, rfl⟩

end Plan

end StepGraph
