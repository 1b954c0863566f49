import Mathlib.Data.List.Forall2
import StepGraph.Proofs.Dataflow.Writing

/-!
# What a stage reads and writes

A stage gets its arguments from the registers it reads from, and nothing else of the store matters
to it. What a register holds after the stage has written depends on the outputs that write to it and
on what it held before. Both are said of two stages at once, which may use different registers.
-/

namespace StepGraph.Plan.Stage

variable {g g' : Stage} {s s' : Store} {r r' : Register}

/-- Output number `k` of the stage writes to the register. -/
def WritesAt (g : Stage) (k : Nat) (r : Register) : Prop :=
  ∃ registers, g.outputs[k]? = some registers ∧ r ∈ registers

/-- Some output of the stage writes to the register. -/
def WritesTo (g : Stage) (r : Register) : Prop := ∃ k, g.WritesAt k r

/-- The stage reads an argument from the register. -/
def ReadsFrom (g : Stage) (r : Register) : Prop := r ∈ g.inputMap.values

/-- Stages that find the same values for the same names have the same arguments. -/
theorem arguments_eq_of_forall₂
    (h : List.Forall₂ (fun e e' => e.1 = e'.1 ∧ s.find? e.2 = s'.find? e'.2) g.inputMap.entries
      g'.inputMap.entries) : g.arguments s = g'.arguments s' := by
  apply OrderedMap.ext_entries
  simp only [arguments, OrderedMap.filterMap]
  generalize g.inputMap.entries = es at h
  generalize g'.inputMap.entries = es' at h
  induction h with
  | nil => rfl
  | cons he _ ih =>
      obtain ⟨hname, hvalue⟩ := he
      rw [List.filterMap_cons, List.filterMap_cons, hname, hvalue, ih]

theorem arguments_eq_of_readsFrom (h : ∀ r, g.ReadsFrom r → s.find? r = s'.find? r) :
    g.arguments s = g.arguments s' := by
  refine arguments_eq_of_forall₂ (List.forall₂_same.2 fun e he => ⟨rfl, ?_⟩)
  exact h e.2 (List.mem_map_of_mem he)

/-- Registers that the same outputs write to, and that hold the same before, hold the same after. -/
theorem find?_write_congr (hwrites : ∀ k, g.WritesAt k r ↔ g'.WritesAt k r')
    (h : s.find? r = s'.find? r') (values : List Json) :
    (write g.outputs values s).find? r = (write g'.outputs values s').find? r' := by
  classical
  have hplace : ∀ k, g.WritesAt (0 + k) r ↔ ∃ registers, g.outputs[k]? = some registers ∧
      r ∈ registers := by
    intro k
    rw [Nat.zero_add]
    rfl
  have hplace' : ∀ k, g.WritesAt (0 + k) r ↔ ∃ registers, g'.outputs[k]? = some registers ∧
      r' ∈ registers := by
    intro k
    rw [Nat.zero_add, hwrites]
    rfl
  rw [find?_write (p := (g.WritesAt · r)) g.outputs values s 0 hplace,
    find?_write (p := (g.WritesAt · r)) g'.outputs values s' 0 hplace', h]

theorem find?_write_of_not_writesTo (h : ¬ g.WritesTo r) (values : List Json) :
    (write g.outputs values s).find? r = s.find? r := by
  refine find?_write_of_not_mem (fun registers hregisters hr => h ?_) values s
  obtain ⟨k, hk⟩ := List.mem_iff_getElem?.1 hregisters
  exact ⟨k, registers, hk, hr⟩

end StepGraph.Plan.Stage
