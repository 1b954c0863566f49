import Mathlib.Data.List.Nodup
import Mathlib.Data.List.Perm.Subperm
import Mathlib.Data.List.Range
import StepGraph.Plan.Surface

/-!
# Free names

`firstFree name taken` is `name` if it is not taken, and otherwise the first of `name_2`, `name_3`
and so on that is not. The search gives up after as many suffixes as there are taken names, which is
late enough: the suffixed names differ from each other, so that not all of them are taken.

`exportNames taken wanted` gives the wanted names one after the other, each the first free one.
`IsFirstFree` says without a search which name that is, and `NamedInTurn` says it of a row of names.
-/

namespace StepGraph.Plan

variable {name : String} {taken : List String}

theorem suffixed_injective (name : String) : Function.Injective (suffixed name) := by
  intro j k h
  have hrepr : Nat.repr j = Nat.repr k := (String.append_right_inj _).1 h
  rw [← @Nat.ofDigitChars_ten_toDigits j, ← @Nat.ofDigitChars_ten_toDigits k, ← Nat.toList_repr,
    ← Nat.toList_repr, hrepr]

/-- One of the first suffixed names is free, if there is one more of them than of taken names. -/
theorem exists_suffixed_not_mem (name : String) (taken : List String) (k : Nat) :
    ∃ j ≤ taken.length, suffixed name (k + j) ∉ taken := by
  by_contra hall
  push Not at hall
  have hnodup : ((List.range (taken.length + 1)).map fun j => suffixed name (k + j)).Nodup := by
    refine List.Nodup.map ?_ List.nodup_range
    intro i j h
    exact Nat.add_left_cancel (suffixed_injective name h)
  have hsub : ((List.range (taken.length + 1)).map fun j => suffixed name (k + j)).Subperm
      taken := by
    refine hnodup.subperm fun x hx => ?_
    obtain ⟨j, hj, rfl⟩ := List.mem_map.1 hx
    exact hall j (Nat.lt_succ_iff.1 (List.mem_range.1 hj))
  have hlength := hsub.length_le
  rw [List.length_map, List.length_range] at hlength
  omega

/-- The search ends with the first free suffix, if there is one in its reach. -/
theorem firstFreeFrom_eq {fuel k : Nat} (h : ∃ j ≤ fuel, suffixed name (k + j) ∉ taken) :
    ∃ j, firstFreeFrom name taken fuel k = suffixed name (k + j) ∧
      suffixed name (k + j) ∉ taken ∧ ∀ i < j, suffixed name (k + i) ∈ taken := by
  induction fuel generalizing k with
  | zero =>
      obtain ⟨j, hj, hfree⟩ := h
      obtain rfl := Nat.le_zero.1 hj
      exact ⟨0, rfl, hfree, by simp⟩
  | succ fuel ih =>
      rw [firstFreeFrom]
      split
      · next hk =>
        obtain ⟨j, hj, hfree⟩ := h
        obtain ⟨i, rfl⟩ : ∃ i, j = i + 1 := by
          refine Nat.exists_eq_succ_of_ne_zero ?_
          rintro rfl
          exact hfree hk
        have hstep : ∀ i, k + 1 + i = k + (i + 1) := by omega
        obtain ⟨m, heq, hm, hleast⟩ := ih ⟨i, by omega, by rwa [hstep]⟩
        rw [hstep] at heq hm
        refine ⟨m + 1, heq, hm, ?_⟩
        intro i hi
        cases i with
        | zero => exact hk
        | succ i =>
            rw [← hstep]
            exact hleast i (by omega)
      · next hk => exact ⟨0, rfl, hk, by simp⟩

/-- The name is the wanted one or, if that is taken, has the least suffix from 2 on that is free. -/
def IsFirstFree (wanted : String) (taken : List String) (name : String) : Prop :=
  (wanted ∉ taken ∧ name = wanted) ∨
    (wanted ∈ taken ∧ ∃ k ≥ 2, name = suffixed wanted k ∧ suffixed wanted k ∉ taken ∧
      ∀ j ≥ 2, j < k → suffixed wanted j ∈ taken)

theorem isFirstFree_firstFree (name : String) (taken : List String) :
    IsFirstFree name taken (firstFree name taken) := by
  rw [firstFree]
  split
  · next htaken =>
    obtain ⟨j, heq, hfree, hleast⟩ := firstFreeFrom_eq (exists_suffixed_not_mem name taken 2)
    refine Or.inr ⟨htaken, 2 + j, Nat.le_add_right .., heq, hfree, fun i hi hlt => ?_⟩
    obtain ⟨i, rfl⟩ := Nat.exists_eq_add_of_le hi
    exact hleast i (Nat.lt_of_add_lt_add_left hlt)
  · next hfree => exact Or.inl ⟨hfree, rfl⟩

theorem firstFree_not_mem (name : String) (taken : List String) : firstFree name taken ∉ taken := by
  rcases isFirstFree_firstFree name taken with ⟨hfree, heq⟩ | ⟨-, k, -, heq, hfree, -⟩
  · rwa [heq]
  · rwa [heq]

/-- The wanted names one after the other, each the first one that is free then. -/
def exportNames : List String → List String → List String
  | _, [] => []
  | taken, name :: names =>
    firstFree name taken :: exportNames (taken ++ [firstFree name taken]) names

theorem length_exportNames (taken names : List String) :
    (exportNames taken names).length = names.length := by
  induction names generalizing taken with
  | nil => rfl
  | cons name names ih => rw [exportNames, List.length_cons, ih, List.length_cons]

/-- Each name is the first free one after those that are given before it. -/
theorem isFirstFree_of_exportNames {α : Type*} {f : α → String} {as : List α}
    {before after : List (String × α)} {e : String × α}
    (h : (exportNames taken (as.map f)).zip as = before ++ e :: after) :
    IsFirstFree (f e.2) (taken ++ before.map Prod.fst) e.1 := by
  induction as generalizing taken before with
  | nil => simp at h
  | cons a as ih =>
      rw [List.map_cons, exportNames, List.zip_cons_cons] at h
      cases before with
      | nil =>
          obtain ⟨rfl, -⟩ := List.cons.inj h
          rw [List.map_nil, List.append_nil]
          exact isFirstFree_firstFree (f a) taken
      | cons b before =>
          obtain ⟨rfl, hrest⟩ := List.cons.inj h
          have hname := ih hrest
          rwa [List.append_assoc] at hname

theorem firstFreeFrom_congr {taken' : List String} (h : ∀ x, x ∈ taken ↔ x ∈ taken') (name : String)
    (fuel k : Nat) : firstFreeFrom name taken fuel k = firstFreeFrom name taken' fuel k := by
  induction fuel generalizing k with
  | zero => rfl
  | succ fuel ih => simp only [firstFreeFrom, h, ih]

/-- Which names are taken matters, not in which order. -/
theorem exportNames_congr {taken taken' : List String} (h : taken.Perm taken')
    (names : List String) : exportNames taken names = exportNames taken' names := by
  induction names generalizing taken taken' with
  | nil => rfl
  | cons name names ih =>
      have hfree : firstFree name taken = firstFree name taken' := by
        have hmem : ∀ x, x ∈ taken ↔ x ∈ taken' := fun x => h.mem_iff
        simp only [firstFree, hmem, h.length_eq, firstFreeFrom_congr hmem]
      rw [exportNames, exportNames, hfree, ih (h.append_right _)]

/-- No name is given twice, and none that was taken before. -/
theorem nodup_append_exportNames {taken : List String} (h : taken.Nodup) (names : List String) :
    (taken ++ exportNames taken names).Nodup := by
  induction names generalizing taken with
  | nil => simpa [exportNames] using h
  | cons name names ih =>
      have hfree := firstFree_not_mem name taken
      have htaken : (taken ++ [firstFree name taken]).Nodup := by
        refine List.nodup_append.2 ⟨h, by simp, ?_⟩
        rintro x hx y hy rfl
        rw [List.mem_singleton.1 hy] at hx
        exact hfree hx
      have hrest := ih htaken
      rwa [List.append_assoc] at hrest

/-- The names are distinct, and each is the first free one after those before it. -/
structure NamedInTurn (wanted names : List String) : Prop where
  length : names.length = wanted.length
  distinct : names.Nodup
  named : ∀ before e after, names.zip wanted = before ++ e :: after →
    IsFirstFree e.2 (before.map Prod.fst) e.1

theorem namedInTurn_exportNames (wanted : List String) :
    NamedInTurn wanted (exportNames [] wanted) := by
  constructor
  case length => exact length_exportNames [] wanted
  case distinct => exact nodup_append_exportNames List.nodup_nil wanted
  case named =>
    intro before e after h
    have hwanted : (exportNames [] (wanted.map id)).zip wanted = before ++ e :: after := by
      rw [List.map_id, h]
    exact isFirstFree_of_exportNames hwanted

/-- Names that are new and distinct are given as they are. -/
theorem exportNames_of_nodup {taken names : List String} (h : (taken ++ names).Nodup) :
    exportNames taken names = names := by
  induction names generalizing taken with
  | nil => rfl
  | cons name names ih =>
      have hnew : name ∉ taken := fun hmem =>
        (List.nodup_append.1 h).2.2 name hmem name (by simp) rfl
      have hfree : firstFree name taken = name := by simp [firstFree, hnew]
      rw [exportNames, hfree, ih]
      simpa using h

end StepGraph.Plan
