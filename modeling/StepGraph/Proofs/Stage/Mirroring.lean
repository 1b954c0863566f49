import StepGraph.Proofs.Stage.Access

/-!
# Stages that mirror each other

Which registers a compiled graph uses does not matter. Let `R` relate the registers of one compiled
graph to those of another one. Two stores mirror each other if related registers hold the same, and
two stages do if they run the same step for the same node, read from related registers under the
same names, and write to related registers from the same outputs. Stages that mirror each other do
the same on stores that do, and leave stores that do; so do lists of such stages.
-/

namespace StepGraph

open Plan

variable {R : Register → Register → Prop}

/-- Related registers hold the same value. -/
def Store.Mirrors (R : Register → Register → Prop) (s s' : Store) : Prop :=
  ∀ r r', R r r' → s.find? r = s'.find? r'

/-- The stages do the same, each with its own registers. -/
structure Plan.Stage.Mirrors (R : Register → Register → Prop) (g g' : Stage) : Prop where
  node : g.node = g'.node
  type : g.type = g'.type
  step : g.step = g'.step
  reads : List.Forall₂ (fun e e' => e.1 = e'.1 ∧ R e.2 e'.2) g.inputMap.entries g'.inputMap.entries
  writes : ∀ r r', R r r' → ∀ k, g.WritesAt k r ↔ g'.WritesAt k r'

theorem Plan.Stage.Mirrors.refl (g : Stage) : g.Mirrors Eq g where
  node := rfl
  type := rfl
  step := rfl
  reads := List.forall₂_same.2 fun _ _ => ⟨rfl, rfl⟩
  writes := fun _ _ hr _ => hr ▸ Iff.rfl

variable {s s' : Store}

namespace Plan.Stage.Mirrors

variable {g g' : Stage} (h : g.Mirrors R g') (hs : s.Mirrors R s')

include h

theorem write (hs : s.Mirrors R s') (values : List Json) :
    (write g.outputs values s).Mirrors R (write g'.outputs values s') :=
  fun r r' hr => find?_write_congr (h.writes r r' hr) (hs r r' hr) values

include hs

theorem arguments : g.arguments s = g'.arguments s' :=
  arguments_eq_of_forall₂ (h.reads.imp fun e e' he => ⟨he.1, hs e.2 e'.2 he.2⟩)

theorem validate : g.validate s = g'.validate s' := by
  rw [Stage.validate, Stage.validate, h.arguments hs, h.node, h.type, h.step]

theorem fingerprint : g.fingerprint s = g'.fingerprint s' := by
  rw [Stage.fingerprint, Stage.fingerprint, h.arguments hs, h.node, h.type, h.step]

theorem process (ui : UiMap) :
    Run.Matches (fun a b => a.1.Mirrors R b.1 ∧ a.2 = b.2) (g.process s ui) (g'.process s' ui) := by
  rw [Stage.process, Stage.process, h.arguments hs, h.node, h.type, h.step]
  refine Run.Matches.bind (Run.Matches.refl _) ?_
  rintro output _ rfl
  exact .ok ⟨h.write hs output.values, rfl⟩

end Plan.Stage.Mirrors

namespace Artifact

variable {stages stages' : List Stage} (h : List.Forall₂ (Stage.Mirrors R) stages stages')

include h

theorem matches_processStages (hs : s.Mirrors R s') (ui : UiMap) :
    Run.Matches (fun a b => a.1.Mirrors R b.1 ∧ a.2 = b.2) (processStages stages s ui)
      (processStages stages' s' ui) := by
  induction h generalizing s s' ui with
  | nil => exact .ok ⟨hs, rfl⟩
  | cons hg _ ih =>
      rw [processStages, processStages]
      refine Run.Matches.bind (hg.process hs ui) ?_
      rintro ⟨t, ui⟩ ⟨t', _⟩ ⟨ht, rfl⟩
      exact ih ht ui

theorem validateStages_eq (hs : s.Mirrors R s') :
    validateStages s stages = validateStages s' stages' := by
  induction h with
  | nil => rfl
  | cons hg _ ih => rw [validateStages, validateStages, hg.validate hs, ih]

theorem fingerprintStages_eq (hs : s.Mirrors R s') :
    fingerprintStages s stages = fingerprintStages s' stages' := by
  induction h with
  | nil => rfl
  | cons hg _ ih => rw [fingerprintStages, fingerprintStages, hg.fingerprint hs, ih]

theorem forall₂_detectsChange :
    List.Forall₂ (Stage.Mirrors R) (stages.filter fun g => g.step.detectsChange)
      (stages'.filter fun g => g.step.detectsChange) := by
  refine List.rel_filter ?_ h
  intro g g' hg
  simp only [hg.step]

omit h

/-- Outputs of the same names that are read from related registers. -/
theorem readOutputs_eq {outputs outputs' : List ExportedOutput}
    (h : List.Forall₂ (fun o o' => o.name = o'.name ∧ R o.register o'.register) outputs outputs')
    (hs : s.Mirrors R s') : readOutputs s outputs = readOutputs s' outputs' := by
  induction h with
  | nil => rfl
  | cons ho _ ih => rw [readOutputs, readOutputs, hs _ _ ho.2, ho.1, ih]

/-- Artifacts with such stages and outputs do the same once related registers are filled with the
same. -/
theorem runs_eq_of_mirrors {a a' : Artifact} {params params' : Params}
    (hstages : List.Forall₂ (Stage.Mirrors R) a.plan.stages a'.plan.stages)
    (houtputs : List.Forall₂ (fun o o' => o.name = o'.name ∧ R o.register o'.register)
      a.plan.outputs a'.plan.outputs)
    (hs : Store.seed a.plan.inputs params = .ok s)
    (hs' : Store.seed a'.plan.inputs params' = .ok s') (h : s.Mirrors R s') :
    a.process params = a'.process params' ∧ a.validate params = a'.validate params' ∧
      a.fingerprint params = a'.fingerprint params' := by
  refine ⟨?_, ?_, ?_⟩
  · rw [process, process, hs, hs']
    simp only [Run.ofExcept_ok, pure_bind]
    refine Run.Matches.eq (Run.Matches.bind (matches_processStages hstages h _) ?_)
    rintro ⟨t, ui⟩ ⟨t', _⟩ ⟨ht, rfl⟩
    simp only [readOutputs_eq houtputs ht]
    exact Run.Matches.refl _
  · rw [validate, validate, hs, hs']
    exact validateStages_eq hstages h
  · rw [fingerprint, fingerprint, hs, hs']
    exact fingerprintStages_eq (forall₂_detectsChange hstages) h

end Artifact

end StepGraph
