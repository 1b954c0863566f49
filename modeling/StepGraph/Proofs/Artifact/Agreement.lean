import StepGraph.Proofs.Stage.Mirroring

/-!
# Runs see of a store what its registers hold

Two stores agree if every register holds the same value in both, in whatever order they were
filled. An artifact does the same with any parameters that fill its registers in the same way.

Seeding fails exactly if some parameter has no input, and then it names the first one.
-/

namespace StepGraph

open Plan

namespace Store

variable {s s' : Store} {inputs : InputMap} {params : Params}

/-- Every register holds the same value in both stores. -/
def Agrees (s s' : Store) : Prop := ∀ r, s.find? r = s'.find? r

theorem Agrees.mirrors (h : s.Agrees s') : s.Mirrors Eq s' := fun r _ hr => hr ▸ h r

/-! ## Seeding -/

theorem seedFrom_eq_error_iff {es : List (String × Json)} {e : RunError} :
    seedFrom inputs s es = .error e ↔
      ∃ x, (Entries.keys es).find? (· ∉ inputs.keys) = some x ∧ e = .unexpectedParameter x := by
  induction es generalizing s with
  | nil => simp [seedFrom]
  | cons f es ih =>
      obtain ⟨x, value⟩ := f
      rw [seedFrom, Entries.keys_cons, List.find?_cons]
      cases hx : inputs.find? x with
      | some i =>
          have hmem : x ∈ inputs.keys := OrderedMap.mem_keys_iff.2 ⟨i, hx⟩
          simpa [hmem] using ih
      | none =>
          have hmem : x ∉ inputs.keys := OrderedMap.find?_eq_none_iff.1 hx
          simp [hmem, eq_comm]

theorem seedFrom_isOk_iff {es : List (String × Json)} :
    (∃ s', seedFrom inputs s es = .ok s') ↔ ∀ x ∈ Entries.keys es, x ∈ inputs.keys := by
  constructor
  · rintro ⟨s', hs⟩ x hx
    by_contra hmem
    obtain ⟨y, hy⟩ : ∃ y, (Entries.keys es).find? (· ∉ inputs.keys) = some y :=
      Option.isSome_iff_exists.1 (List.find?_isSome.2 ⟨x, hx, by simpa using hmem⟩)
    have herror : seedFrom inputs s es = .error (.unexpectedParameter y) :=
      seedFrom_eq_error_iff.2 ⟨y, hy, rfl⟩
    rw [herror] at hs
    cases hs
  · intro h
    cases hs : seedFrom inputs s es with
    | ok s' => exact ⟨s', rfl⟩
    | error e =>
        obtain ⟨x, hx, -⟩ := seedFrom_eq_error_iff.1 hs
        have hmem := h x (List.mem_of_find?_eq_some hx)
        simpa [hmem] using List.find?_some hx

theorem seed_isOk_iff :
    (∃ s, seed inputs params = .ok s) ↔ ∀ x ∈ params.keys, x ∈ inputs.keys :=
  seedFrom_isOk_iff

/-- Surfaces with inputs of the same names refuse the same parameters, with the same error. -/
theorem seed_eq_error_congr {inputs' : InputMap} {e : RunError}
    (h : ∀ x, x ∈ inputs.keys ↔ x ∈ inputs'.keys) :
    seed inputs params = .error e ↔ seed inputs' params = .error e := by
  rw [seed, seed, seedFrom_eq_error_iff, seedFrom_eq_error_iff]
  simp only [h]

end Store

variable {s s' : Store}

namespace Plan.Stage

variable {g : Stage}

theorem find?_arguments (g : Stage) (s : Store) (x : String) :
    (g.arguments s).find? x = (g.inputMap.find? x).bind s.find? :=
  OrderedMap.find?_filterMap _ _ _

end Plan.Stage

namespace Artifact

theorem readOutputs_congr (h : s.Agrees s') (outputs : List ExportedOutput) :
    readOutputs s outputs = readOutputs s' outputs :=
  readOutputs_eq (List.forall₂_same.2 fun _ _ => ⟨rfl, rfl⟩) h.mirrors

/-- Artifacts with the same stages and outputs do the same with parameters that fill the registers
in the same way. -/
theorem runs_eq_of_agrees {a a' : Artifact} {params params' : Params}
    (hstages : a'.plan.stages = a.plan.stages) (houtputs : a'.plan.outputs = a.plan.outputs)
    (hs : Store.seed a.plan.inputs params = .ok s)
    (hs' : Store.seed a'.plan.inputs params' = .ok s') (h : s'.Agrees s) :
    a'.process params' = a.process params ∧ a'.validate params' = a.validate params ∧
      a'.fingerprint params' = a.fingerprint params := by
  refine runs_eq_of_mirrors ?_ ?_ hs' hs h.mirrors
  · rw [hstages]
    exact List.forall₂_same.2 fun g _ => Stage.Mirrors.refl g
  · rw [houtputs]
    exact List.forall₂_same.2 fun _ _ => ⟨rfl, rfl⟩

end Artifact

end StepGraph
