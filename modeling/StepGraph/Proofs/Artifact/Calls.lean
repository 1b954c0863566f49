import StepGraph.Proofs.Artifact.Schema
import StepGraph.Proofs.Artifact.Agreement

/-!
# What a call of an artifact calls

A call of a hook of an artifact calls the same hook of its stages, one after the other, up to the
first one that ends the call. `Artifact.reachedFrom` lists these stages with their arguments.

A call fails because a parameter has no input, because a stage that is reached fails, or, if the
artifact is run, because an output was never written. A register that holds a value never loses it,
so that what is not written at the end was not written by any stage.
-/

namespace StepGraph

open Plan

/-- A call of a hook of the step, whatever value it gives. -/
def Step.call (step : Step) (args : Params) : Hook → Run Unit
  | .invoke => (step.invoke args).void
  | .validate => (step.validate args).void
  | .fingerprint => (step.fingerprint args).void

namespace Plan.Stage

/-- Does the step of the stage have the hook? -/
def hasHook (g : Stage) : Hook → Bool
  | .invoke => true
  | .validate => g.step.validates
  | .fingerprint => g.step.detectsChange

/-- The store for the stages after this one, if they are reached. -/
def next? (g : Stage) (s : Store) : Hook → Option Store
  | .invoke =>
    match (g.step.invoke (g.arguments s)).outcome with
    | .ok output => some (write g.outputs output.values s)
    | .error _ => none
  | .validate =>
    match (g.step.validate (g.arguments s)).outcome with
    | .ok .valid => some s
    | _ => none
  | .fingerprint =>
    match (g.step.fingerprint (g.arguments s)).outcome with
    | .ok _ => some s
    | .error _ => none

variable {r : Register} {outputs : List (List Register)} {values : List Json} {s : Store}

/-! ## Registers that hold a value -/

theorem find?_write_ne_none (h : s.find? r ≠ none) : (write outputs values s).find? r ≠ none := by
  induction outputs generalizing values s with
  | nil => simpa [write] using h
  | cons registers outputs ih =>
      cases values with
      | nil => simpa [write] using h
      | cons value values =>
          refine ih ?_
          rw [Store.find?_setAll]
          split
          · simp
          · exact h

theorem find?_write_ne_none_of_mem {k : Nat} {registers : List Register}
    (hk : outputs[k]? = some registers) (hr : r ∈ registers) (hvalue : k < values.length) :
    (write outputs values s).find? r ≠ none := by
  induction outputs generalizing values s k with
  | nil => simp at hk
  | cons first outputs ih =>
      cases values with
      | nil => simp at hvalue
      | cons value values =>
          rw [write]
          cases k with
          | zero =>
              obtain rfl : first = registers := by simpa using hk
              refine find?_write_ne_none ?_
              simp [Store.find?_setAll, hr]
          | succ k => exact ih (by simpa using hk) (by simpa using hvalue)

/-! ## One stage -/

/-- The call of a hook of a stage. -/
def call (g : Stage) (args : Params) (hook : Hook) : Run Unit :=
  (g.step.call args hook).mapError (.within hook g.node g.type)

variable {g : Stage} {s' : Store} {ui ui' : UiMap} {e : RunError}

/-- The error of a stage is that of its step and says which stage it was. -/
theorem exists_cause {args : Params} {hook : Hook} (h : (g.call args hook).outcome = .error e) :
    ∃ cause, (g.step.call args hook).outcome = .error cause ∧
      e = .within hook g.node g.type cause :=
  Except.mapError_eq_error_iff.1 h

theorem process_eq_ok_iff : (g.process s ui).outcome = .ok (s', ui') ↔
    ∃ output, (g.step.invoke (g.arguments s)).outcome = .ok output ∧
      s' = write g.outputs output.values s ∧ ui' = ui.merge output.ui := by
  rw [process, Run.outcome_bind_eq_ok_iff]
  simp only [Run.mapError, Except.mapError_eq_ok_iff]
  constructor
  · rintro ⟨output, houtput, h⟩
    cases h
    exact ⟨output, houtput, rfl, rfl⟩
  · rintro ⟨output, houtput, rfl, rfl⟩
    exact ⟨output, houtput, rfl⟩

theorem void_process : (g.process s ui).void = g.call (g.arguments s) .invoke := by
  rw [process, Run.void_bind_pure, Run.void_mapError]
  rfl

theorem next?_invoke (g : Stage) (s : Store) (ui : UiMap) : g.next? s .invoke =
    match (g.process s ui).outcome with
    | .ok (s', _) => some s'
    | .error _ => none := by
  rw [next?, process]
  obtain ⟨calls, outcome⟩ := g.step.invoke (g.arguments s)
  cases outcome <;> rfl

section

variable (hhook : g.hasHook .validate = true)

include hhook

theorem validate_of_hasHook : g.validate s =
    (g.step.validate (g.arguments s)).mapError (.within .validate g.node g.type) := by
  have hvalidates : g.step.validates = true := hhook
  rw [validate, if_pos hvalidates]

theorem void_validate : (g.validate s).void = g.call (g.arguments s) .validate := by
  rw [validate_of_hasHook hhook, Run.void_mapError]
  rfl

theorem next?_validate (s : Store) : g.next? s .validate =
    match (g.validate s).outcome with
    | .ok .valid => some s
    | _ => none := by
  rw [next?, validate_of_hasHook hhook]
  obtain ⟨calls, outcome⟩ := g.step.validate (g.arguments s)
  cases outcome <;> rfl

end

theorem void_fingerprint : (g.fingerprint s).void = g.call (g.arguments s) .fingerprint :=
  Run.void_mapError _ _

theorem next?_fingerprint (g : Stage) (s : Store) : g.next? s .fingerprint =
    match (g.fingerprint s).outcome with
    | .ok _ => some s
    | .error _ => none := by
  rw [next?, fingerprint]
  obtain ⟨calls, outcome⟩ := g.step.fingerprint (g.arguments s)
  cases outcome <;> rfl

/-- A register that the stage does not write to holds what it held before. -/
theorem find?_of_next? {hook : Hook} (hnext : g.next? s hook = some s') (hr : ¬ g.WritesTo r) :
    s'.find? r = s.find? r := by
  cases hook with
  | invoke =>
      rw [next?] at hnext
      split at hnext
      · cases hnext
        exact find?_write_of_not_writesTo hr _
      · cases hnext
  | validate =>
      rw [next?] at hnext
      split at hnext <;> cases hnext
      rfl
  | fingerprint =>
      rw [next?] at hnext
      split at hnext <;> cases hnext
      rfl

end Plan.Stage

namespace Artifact

/-- The stages whose hook is called, each with its arguments. -/
def reachedFrom (hook : Hook) : List Stage → Store → List (Stage × Params)
  | [], _ => []
  | g :: stages, s =>
    if g.hasHook hook then
      (g, g.arguments s) ::
        match g.next? s hook with
        | some s' => reachedFrom hook stages s'
        | none => []
    else reachedFrom hook stages s

/-- Calls the hook of stages with their arguments, up to the first one that fails. -/
def callAll (hook : Hook) : List (Stage × Params) → Run Unit
  | [] => pure ()
  | (g, args) :: reached => do
    g.call args hook
    callAll hook reached

variable {hook : Hook} {g : Stage} {stages : List Stage} {s s' : Store} {ui ui' : UiMap}
  {e : RunError}

theorem reachedFrom_of_next (hhook : g.hasHook hook = true) (hnext : g.next? s hook = some s') :
    reachedFrom hook (g :: stages) s = (g, g.arguments s) :: reachedFrom hook stages s' := by
  rw [reachedFrom, if_pos hhook, hnext]

theorem reachedFrom_of_next_none (hhook : g.hasHook hook = true) (hnext : g.next? s hook = none) :
    reachedFrom hook (g :: stages) s = [(g, g.arguments s)] := by
  rw [reachedFrom, if_pos hhook, hnext]

theorem reachedFrom_of_not_hook (hhook : ¬ g.hasHook hook = true) :
    reachedFrom hook (g :: stages) s = reachedFrom hook stages s := by
  rw [reachedFrom, if_neg hhook]

/-! ## All stages -/

theorem void_processStages :
    (processStages stages s ui).void = callAll .invoke (reachedFrom .invoke stages s) := by
  induction stages generalizing s ui with
  | nil => rfl
  | cons g stages ih =>
      have hnext := g.next?_invoke s ui
      cases hg : (g.process s ui).outcome with
      | ok next =>
          rw [hg] at hnext
          rw [reachedFrom_of_next rfl hnext, callAll, ← Stage.void_process, ← ih]
          exact Run.void_bind_of_ok hg
      | error e =>
          rw [hg] at hnext
          rw [reachedFrom_of_next_none rfl hnext, callAll, ← Stage.void_process]
          exact Run.void_bind_of_error hg _

theorem void_validateStages :
    (validateStages s stages).void = callAll .validate (reachedFrom .validate stages s) := by
  induction stages with
  | nil => rfl
  | cons g stages ih =>
      by_cases hhook : g.hasHook .validate = true
      · have hnext := Stage.next?_validate hhook s
        cases hg : (g.validate s).outcome with
        | ok v =>
            rw [hg] at hnext
            cases v with
            | valid =>
                rw [reachedFrom_of_next hhook hnext, callAll, ← Stage.void_validate hhook, ← ih]
                exact Run.void_bind_of_ok hg
            | invalid reason =>
                rw [reachedFrom_of_next_none hhook hnext, callAll, ← Stage.void_validate hhook]
                exact Run.void_bind_of_ok hg
        | error e =>
            rw [hg] at hnext
            rw [reachedFrom_of_next_none hhook hnext, callAll, ← Stage.void_validate hhook]
            exact Run.void_bind_of_error hg _
      · have hvalid : g.validate s = pure .valid := if_neg hhook
        rw [reachedFrom_of_not_hook hhook, ← ih, validateStages, hvalid, pure_bind]

theorem void_fingerprintStages :
    (fingerprintStages s (stages.filter fun g => g.step.detectsChange)).void =
      callAll .fingerprint (reachedFrom .fingerprint stages s) := by
  induction stages with
  | nil => rfl
  | cons g stages ih =>
      by_cases hhook : g.hasHook .fingerprint = true
      · have hdetects : g.step.detectsChange = true := hhook
        have hnext := g.next?_fingerprint s
        rw [List.filter_cons_of_pos (by simpa using hdetects), fingerprintStages]
        cases hg : (g.fingerprint s).outcome with
        | ok text =>
            rw [hg] at hnext
            rw [reachedFrom_of_next hhook hnext, callAll, ← Stage.void_fingerprint, ← ih,
              Run.void_bind_of_ok hg, Run.void_bind_pure]
        | error e =>
            rw [hg] at hnext
            rw [reachedFrom_of_next_none hhook hnext, callAll, ← Stage.void_fingerprint]
            exact Run.void_bind_of_error hg _
      · have hdetects : ¬ g.step.detectsChange = true := hhook
        rw [List.filter_cons_of_neg (by simpa using hdetects), reachedFrom_of_not_hook hhook, ih]

/-- If calls one after the other fail, the error is that of one of them. -/
theorem exists_of_callAll_eq_error {reached : List (Stage × Params)}
    (h : (callAll hook reached).outcome = .error e) :
    ∃ g args, (g, args) ∈ reached ∧ (g.call args hook).outcome = .error e := by
  induction reached with
  | nil => cases h
  | cons call reached ih =>
      obtain ⟨g, args⟩ := call
      rcases Run.outcome_bind_eq_error_iff.1 h with h | ⟨-, -, h⟩
      · exact ⟨g, args, List.mem_cons_self .., h⟩
      · obtain ⟨g', args', hmem, h⟩ := ih h
        exact ⟨g', args', List.mem_cons_of_mem _ hmem, h⟩

/-- The first output that was never written is what cannot be read. -/
theorem exists_of_readOutputs_eq_error {outputs : List ExportedOutput}
    (h : readOutputs s outputs = .error e) :
    ∃ o ∈ outputs, e = .missingOutput o.name ∧ s.find? o.register = none := by
  induction outputs with
  | nil => cases h
  | cons o outputs ih =>
      rw [readOutputs] at h
      cases ho : s.find? o.register with
      | none =>
          rw [ho] at h
          cases h
          exact ⟨o, List.mem_cons_self .., rfl, ho⟩
      | some value =>
          rw [ho] at h
          cases hrest : readOutputs s outputs with
          | ok rest =>
              rw [hrest] at h
              cases h
          | error e' =>
              rw [hrest] at h
              cases h
              obtain ⟨o', ho', hmissing⟩ := ih hrest
              exact ⟨o', List.mem_cons_of_mem o ho', hmissing⟩

/-! ## Runs that succeed -/

/-- A run that succeeds calls every stage, in order, and what a stage returns is written and
stays. -/
theorem of_processStages_eq_ok (h : (processStages stages s ui).outcome = .ok (s', ui')) :
    (reachedFrom .invoke stages s).map Prod.fst = stages ∧
      (∀ r, s.find? r ≠ none → s'.find? r ≠ none) ∧
      ∀ g args, (g, args) ∈ reachedFrom .invoke stages s →
        ∃ output, (g.step.invoke args).outcome = .ok output ∧
          ∀ k registers r, g.outputs[k]? = some registers → r ∈ registers →
            k < output.values.length → s'.find? r ≠ none := by
  induction stages generalizing s ui with
  | nil =>
      cases h
      simp [reachedFrom]
  | cons g stages ih =>
      obtain ⟨⟨t, ui₁⟩, hg, h⟩ := Run.outcome_bind_eq_ok_iff.1 h
      obtain ⟨hstages, hkeeps, hwritten⟩ := ih h
      have hnext : g.next? s .invoke = some t := by rw [g.next?_invoke s ui, hg]
      rw [reachedFrom_of_next rfl hnext]
      obtain ⟨output, houtput, rfl, -⟩ := Stage.process_eq_ok_iff.1 hg
      refine ⟨by rw [List.map_cons, hstages], ?_, ?_⟩
      · exact fun r hr => hkeeps r (Stage.find?_write_ne_none hr)
      · intro m args hm
        rcases List.mem_cons.1 hm with heq | hm
        · cases heq
          refine ⟨output, houtput, fun k registers r hk hr hvalue => hkeeps r ?_⟩
          exact Stage.find?_write_ne_none_of_mem hk hr hvalue
        · exact hwritten m args hm

section

variable {a : Artifact} {params : Params}

/-- Once its stages have run, an artifact gives the values of its outputs or says which one is
missing. -/
theorem outcome_process (hs : Store.seed a.plan.inputs params = .ok s)
    (hrun : (processStages a.plan.stages s .empty).outcome = .ok (t, ui)) :
    (a.process params).outcome = (readOutputs t a.plan.outputs).map fun values => ⟨values, ui⟩ := by
  rw [process, hs, Run.ofExcept_ok, pure_bind, Run.outcome_bind_of_ok hrun]
  exact Run.outcome_bind_pure _ _

/-- A run that succeeds reads the outputs after its stages have run. -/
theorem process_eq_ok_iff {result : ProcessResult} :
    (a.process params).outcome = .ok result ↔
      ∃ s t, Store.seed a.plan.inputs params = .ok s ∧
        (processStages a.plan.stages s .empty).outcome = .ok (t, result.ui) ∧
        readOutputs t a.plan.outputs = .ok result.values := by
  simp only [process, Run.outcome_bind_eq_ok_iff, Prod.exists]
  constructor
  · rintro ⟨s, hs, t, ui, hrun, values, hvalues, hresult⟩
    cases hresult
    exact ⟨s, t, hs, hrun, hvalues⟩
  · rintro ⟨s, t, hs, hrun, hvalues⟩
    exact ⟨s, hs, t, _, hrun, _, hvalues, rfl⟩

end

/-! ## Calls -/

/-- A call of a hook of an artifact. -/
structure Call where
  artifact : Artifact
  hook : Hook
  params : Params

namespace Call

/-- There is an input for every parameter. -/
def Declared (c : Call) : Prop := ∀ x ∈ c.params.keys, x ∈ c.artifact.plan.inputs.keys

/-- The stages whose hook is called, each with its arguments, in order. -/
def reached (c : Call) : List (Stage × Params) :=
  match Store.seed c.artifact.plan.inputs c.params with
  | .ok s => reachedFrom c.hook c.artifact.plan.stages s
  | .error _ => []

/-- What the call does, whatever value it gives. -/
def run (c : Call) : Run Unit := c.artifact.step.call c.params c.hook

theorem reached_of_seed {c : Call} (hs : Store.seed c.artifact.plan.inputs c.params = .ok s) :
    c.reached = reachedFrom c.hook c.artifact.plan.stages s := by
  rw [reached, hs]

/-- What a call records is what the calls of the stages record. -/
theorem calls_run (c : Call) : c.run.calls = (callAll c.hook c.reached).calls := by
  obtain ⟨a, hook, params⟩ := c
  have hinvoke : (run ⟨a, .invoke, params⟩).calls = (a.process params).calls :=
    congrArg Run.calls (Run.void_bind_pure (a.process params) _)
  cases hs : Store.seed a.plan.inputs params with
  | error e =>
      have hreached : reached ⟨a, hook, params⟩ = [] := by rw [reached, hs]
      rw [hreached]
      cases hook with
      | invoke =>
          rw [hinvoke, process, hs]
          rfl
      | validate =>
          change (a.validate params).calls = _
          rw [validate, hs]
          rfl
      | fingerprint =>
          change (a.fingerprint params).calls = _
          rw [fingerprint, hs]
          rfl
  | ok s =>
      rw [reached_of_seed hs]
      cases hook with
      | invoke =>
          rw [hinvoke, process, hs, Run.ofExcept_ok, pure_bind, Run.calls_bind_of_nil,
            ← void_processStages]
          · rfl
          · rintro ⟨s', ui⟩
            exact Run.calls_bind_of_nil fun _ => rfl
      | validate =>
          change (a.validate params).void.calls = _
          rw [validate, hs, Run.ofExcept_ok, pure_bind, void_validateStages]
      | fingerprint =>
          change (a.fingerprint params).void.calls = _
          rw [fingerprint, hs, Run.ofExcept_ok, pure_bind, void_fingerprintStages]

/-- A call whose parameters all have inputs fails in a stage, or because an output was not
written. -/
theorem cases_of_error {c : Call} (hdeclared : c.Declared) (h : c.run.outcome = .error e) :
    (∃ g args, (g, args) ∈ c.reached ∧ (g.call args c.hook).outcome = .error e) ∨
      ∃ s s' ui, c.hook = .invoke ∧ c.reached = reachedFrom .invoke c.artifact.plan.stages s ∧
        (processStages c.artifact.plan.stages s .empty).outcome = .ok (s', ui) ∧
        ∃ o ∈ c.artifact.plan.outputs, e = .missingOutput o.name ∧ s'.find? o.register = none := by
  obtain ⟨s, hs⟩ := Store.seed_isOk_iff.2 hdeclared
  rw [reached_of_seed hs]
  obtain ⟨a, hook, params⟩ := c
  cases hook with
  | validate =>
      have houtcome : (a.validate params).void.outcome = .error e := h
      rw [validate, hs, Run.ofExcept_ok, pure_bind, void_validateStages] at houtcome
      exact Or.inl (exists_of_callAll_eq_error houtcome)
  | fingerprint =>
      have houtcome : (a.fingerprint params).void.outcome = .error e := h
      rw [fingerprint, hs, Run.ofExcept_ok, pure_bind, void_fingerprintStages] at houtcome
      exact Or.inl (exists_of_callAll_eq_error houtcome)
  | invoke =>
      have houtcome : ((a.process params).void).outcome = .error e := by
        rw [← Run.void_bind_pure]
        exact h
      rw [Run.outcome_void_eq_error_iff, process, hs, Run.ofExcept_ok, pure_bind] at houtcome
      rcases Run.outcome_bind_eq_error_iff.1 houtcome with hstages | ⟨⟨s', ui⟩, hstages, hread⟩
      · rw [← Run.outcome_void_eq_error_iff, void_processStages] at hstages
        exact Or.inl (exists_of_callAll_eq_error hstages)
      · rcases Run.outcome_bind_eq_error_iff.1 hread with hread | ⟨values, -, hpure⟩
        · exact Or.inr ⟨s, s', ui, rfl, rfl, hstages, exists_of_readOutputs_eq_error hread⟩
        · cases hpure

end Call

end Artifact

end StepGraph
