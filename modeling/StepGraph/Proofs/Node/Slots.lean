import Mathlib.Data.List.Perm.Subperm
import StepGraph.Plan.Node

/-!
# Setting slots apart

`takeInput? name is` takes the first input named `name` out of a list, and `takeInputs names is`
does so for one name after the other. It is what `Node.separateSlots` does to the value inputs of a
node. The inputs that are taken stand in the order of the names, those that are left keep their
order, and together they are the inputs from before. So the names can be taken if and only if the
inputs have each of them as often as it is asked for.

A name that is asked for again takes the next input of that name, which the lemma on the `j`-th
input says with the inputs of one name on both sides.
-/

namespace StepGraph.Plan

/-- Takes the inputs with these names out of a list, one name after the other. -/
def takeInputs : List String → List Input → Option (List Input × List Input)
  | [], is => some ([], is)
  | name :: names, is =>
    match takeInput? name is with
    | some (i, rest) => (takeInputs names rest).map fun r => (i :: r.1, r.2)
    | none => none

/-- The inputs of a list that have a name. -/
def inputsNamed (name : String) (is : List Input) : List Input := is.filter fun i => i.name = name

variable {name : String} {names : List String} {i : Input} {is taken rest : List Input}

/-! ## Taking one input -/

theorem takeInput?_eq_some (h : takeInput? name is = some (i, rest)) :
    ∃ before after, is = before ++ i :: after ∧ rest = before ++ after ∧ i.name = name ∧
      ∀ x ∈ before, x.name ≠ name := by
  induction is generalizing rest with
  | nil => simp [takeInput?] at h
  | cons x is ih =>
      rw [takeInput?] at h
      split at h
      · next hx =>
        obtain ⟨rfl, rfl⟩ := Prod.mk.inj (Option.some.inj h)
        exact ⟨[], _, rfl, rfl, hx, by simp⟩
      · next hx =>
        obtain ⟨⟨j, left⟩, htake, hj⟩ := Option.map_eq_some_iff.1 h
        obtain ⟨rfl, rfl⟩ := Prod.mk.inj hj
        obtain ⟨before, after, rfl, rfl, hname, hbefore⟩ := ih htake
        refine ⟨x :: before, after, rfl, rfl, hname, ?_⟩
        intro y hy
        rcases List.mem_cons.1 hy with rfl | hy
        · exact hx
        · exact hbefore y hy

theorem takeInput?_eq_none_iff : takeInput? name is = none ↔ name ∉ is.map Input.name := by
  induction is with
  | nil => simp [takeInput?]
  | cons x is ih =>
      by_cases hx : x.name = name
      · simp [takeInput?, hx]
      · rw [takeInput?, if_neg hx, Option.map_eq_none_iff, ih]
        simp [Ne.symm hx]

/-- Taking an input shortens the inputs of its name by their first and leaves those of others. -/
theorem inputsNamed_of_takeInput? (h : takeInput? name is = some (i, rest)) (x : String) :
    inputsNamed x is =
      if x = name then i :: inputsNamed x rest else inputsNamed x rest := by
  obtain ⟨before, after, rfl, rfl, rfl, hbefore⟩ := takeInput?_eq_some h
  by_cases hx : x = i.name
  · subst hx
    have hnone : inputsNamed i.name before = [] := by
      simpa [inputsNamed, List.filter_eq_nil_iff] using hbefore
    simp only [inputsNamed, List.filter_append] at hnone ⊢
    simp [hnone]
  · simp [inputsNamed, hx, Ne.symm hx]

/-! ## Taking inputs one after the other -/

theorem takeInputs_cons_eq_some :
    takeInputs (name :: names) is = some (taken, rest) ↔
      ∃ i left others, takeInput? name is = some (i, left) ∧
        takeInputs names left = some (others, rest) ∧ taken = i :: others := by
  rw [takeInputs]
  constructor
  · intro h
    split at h
    · next i left htake =>
      obtain ⟨⟨others, rest'⟩, hothers, heq⟩ := Option.map_eq_some_iff.1 h
      obtain ⟨rfl, rfl⟩ := Prod.mk.inj heq
      exact ⟨i, left, others, htake, hothers, rfl⟩
    · cases h
  · rintro ⟨i, left, others, htake, hothers, rfl⟩
    simp [htake, hothers]

theorem map_name_of_takeInputs (h : takeInputs names is = some (taken, rest)) :
    taken.map Input.name = names := by
  induction names generalizing is taken with
  | nil =>
      obtain ⟨rfl, rfl⟩ := Prod.mk.inj (Option.some.inj h)
      rfl
  | cons name names ih =>
      obtain ⟨i, left, others, htake, hothers, rfl⟩ := takeInputs_cons_eq_some.1 h
      obtain ⟨before, after, -, -, hname, -⟩ := takeInput?_eq_some htake
      rw [List.map_cons, hname, ih hothers]

theorem perm_of_takeInputs (h : takeInputs names is = some (taken, rest)) :
    (taken ++ rest).Perm is := by
  induction names generalizing is taken with
  | nil =>
      obtain ⟨rfl, rfl⟩ := Prod.mk.inj (Option.some.inj h)
      exact List.Perm.refl _
  | cons name names ih =>
      obtain ⟨i, left, others, htake, hothers, rfl⟩ := takeInputs_cons_eq_some.1 h
      obtain ⟨before, after, rfl, rfl, -, -⟩ := takeInput?_eq_some htake
      exact ((ih hothers).cons i).trans List.perm_middle.symm

theorem sublist_of_takeInputs (h : takeInputs names is = some (taken, rest)) :
    rest.Sublist is := by
  induction names generalizing is taken with
  | nil =>
      obtain ⟨rfl, rfl⟩ := Prod.mk.inj (Option.some.inj h)
      exact List.Sublist.refl _
  | cons name names ih =>
      obtain ⟨i, left, others, htake, hothers, rfl⟩ := takeInputs_cons_eq_some.1 h
      obtain ⟨before, after, rfl, rfl, -, -⟩ := takeInput?_eq_some htake
      exact (ih hothers).trans ((List.sublist_cons_self i after).append_left before)

/-- The names can be taken if and only if the inputs have each as often as it is asked for. -/
theorem exists_takeInputs_iff :
    (∃ r, takeInputs names is = some r) ↔ names.Subperm (is.map Input.name) := by
  constructor
  · rintro ⟨⟨taken, rest⟩, h⟩
    have hperm := (perm_of_takeInputs h).map Input.name
    rw [List.map_append, map_name_of_takeInputs h] at hperm
    exact (List.sublist_append_left names _).subperm.trans hperm.subperm
  · intro h
    induction names generalizing is with
    | nil => exact ⟨([], is), rfl⟩
    | cons name names ih =>
        have hmem : name ∈ is.map Input.name := h.subset (by simp)
        obtain ⟨⟨i, left⟩, htake⟩ : ∃ r, takeInput? name is = some r := by
          rw [← Option.ne_none_iff_exists']
          exact fun hnone => takeInput?_eq_none_iff.1 hnone hmem
        obtain ⟨before, after, rfl, rfl, rfl, -⟩ := takeInput?_eq_some htake
        have hperm : ((before ++ i :: after).map Input.name).Perm
            (i.name :: (before ++ after).map Input.name) :=
          List.perm_middle.map Input.name
        obtain ⟨⟨others, rest⟩, hothers⟩ :=
          ih (List.subperm_cons _ |>.1 (h.trans hperm.subperm))
        exact ⟨(i :: others, rest), takeInputs_cons_eq_some.2 ⟨i, _, others, htake, hothers, rfl⟩⟩

/-- The input taken for the `j`-th name is the next one of the name after those taken for the same
name before. -/
theorem getElem?_of_takeInputs (h : takeInputs names is = some (taken, rest)) {j : Nat}
    (hj : names[j]? = some name) :
    taken[j]? = (inputsNamed name is)[(names.take j).count name]? := by
  induction names generalizing is taken j with
  | nil => simp at hj
  | cons first names ih =>
      obtain ⟨i, left, others, htake, hothers, rfl⟩ := takeInputs_cons_eq_some.1 h
      cases j with
      | zero =>
          obtain rfl : first = name := by simpa using hj
          simp [inputsNamed_of_takeInput? htake]
      | succ j =>
          rw [List.getElem?_cons_succ, ih hothers (by simpa using hj), List.take_succ_cons,
            inputsNamed_of_takeInput? htake]
          by_cases hname : name = first
          · simp [hname]
          · simp [hname, Ne.symm hname]

/-- Where no name is repeated, the inputs that are left are those whose names are not asked for. -/
theorem rest_eq_filter_of_takeInputs (h : takeInputs names is = some (taken, rest))
    (hnodup : (is.map Input.name).Nodup) : rest = is.filter fun i => i.name ∉ names := by
  have hnames := (perm_of_takeInputs h).map Input.name
  rw [List.map_append, map_name_of_takeInputs h] at hnames
  have hdisjoint := (List.nodup_append.1 (hnames.nodup_iff.2 hnodup)).2.2
  have hrest : (rest.filter fun i => i.name ∉ names) = rest := by
    rw [List.filter_eq_self]
    intro i hi
    simpa using fun hmem => hdisjoint i.name hmem i.name (List.mem_map_of_mem hi) rfl
  have htaken : (taken.filter fun i => i.name ∉ names) = [] := by
    rw [List.filter_eq_nil_iff]
    intro i hi
    simpa [map_name_of_takeInputs h] using
      (map_name_of_takeInputs h ▸ List.mem_map_of_mem hi : i.name ∈ names)
  have hsub := (sublist_of_takeInputs h).filter fun i => decide (i.name ∉ names)
  have hlength : (is.filter fun i => decide (i.name ∉ names)).length = rest.length := by
    have hperm := (perm_of_takeInputs h).filter fun i => decide (i.name ∉ names)
    rw [List.filter_append, htaken, hrest] at hperm
    simpa using hperm.length_eq.symm
  rw [hrest] at hsub
  exact hsub.eq_of_length hlength.symm

/-! ## The slots of a node -/

theorem separateSlots_eq_ok_iff {n n' : Node} :
    n.separateSlots names = .ok n' ↔ ∃ taken rest, takeInputs names n.inputs = some (taken, rest) ∧
      n' = { n with inputs := rest, slots := n.slots ++ taken } := by
  induction names generalizing n with
  | nil => simp [Node.separateSlots, takeInputs, eq_comm]
  | cons name names ih =>
      rw [Node.separateSlots]
      split
      · next i left htake =>
        rw [ih]
        constructor
        · rintro ⟨taken, rest, hothers, rfl⟩
          exact ⟨i :: taken, rest,
            takeInputs_cons_eq_some.2 ⟨i, left, taken, htake, hothers, rfl⟩, by simp⟩
        · rintro ⟨taken, rest, h, rfl⟩
          obtain ⟨i', left', others, htake', hothers, rfl⟩ := takeInputs_cons_eq_some.1 h
          obtain ⟨rfl, rfl⟩ := Prod.mk.inj (Option.some.inj (htake.symm.trans htake'))
          exact ⟨others, rest, hothers, by simp⟩
      · next htake =>
        constructor
        · intro h
          split at h <;> cases h
        · rintro ⟨taken, rest, h, -⟩
          obtain ⟨i', left', others, htake', -, -⟩ := takeInputs_cons_eq_some.1 h
          rw [htake] at htake'
          cases htake'

end StepGraph.Plan
