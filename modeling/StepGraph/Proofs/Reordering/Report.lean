import Mathlib.Data.List.Perm.Basic
import StepGraph.Artifact.Basic

/-!
# Reports in another order

What steps report beside their values is collected by channel, each report after those before it. If
the same reports come in another order, the channels are the same, and each has the same entries in
another order.
-/

namespace StepGraph.UiMap

variable {ui ui' ui'' more : UiMap} {channel : String}

/-- The same channels are there, and each has the same entries up to order. -/
def Rearranges (ui ui' : UiMap) : Prop :=
  ∀ channel, Option.Rel List.Perm (ui.find? channel) (ui'.find? channel)

theorem find?_append (ui : UiMap) (opened : String) (values : List Json) (channel : String) :
    (ui.append opened values).find? channel =
      if opened = channel then some ((ui.find? channel).getD [] ++ values)
      else ui.find? channel := by
  rw [append, OrderedMap.find?_insert]
  split
  · next h => rw [h]
  · rfl

/-- The entries of a channel are those from before, and then those of the added report. -/
theorem find?_merge (ui more : UiMap) (channel : String) :
    (ui.merge more).find? channel =
      match more.find? channel with
      | some values => some ((ui.find? channel).getD [] ++ values)
      | none => ui.find? channel := by
  have hnodup := more.nodup_keys
  have hmore : more.find? channel = Entries.find? channel more.entries := rfl
  rw [merge, hmore]
  generalize more.entries = es at hnodup ⊢
  induction es generalizing ui with
  | nil => rfl
  | cons e es ih =>
      obtain ⟨hnew, hnodup⟩ := List.nodup_cons.1 hnodup
      rw [List.foldl_cons, ih _ hnodup, find?_append, Entries.find?_cons]
      by_cases h : e.1 = channel
      · have hnone : Entries.find? channel es = none := Entries.find?_eq_none_iff.2 (h ▸ hnew)
        simp only [h, hnone, if_true]
      · simp only [h, if_false]

namespace Rearranges

theorem refl (ui : UiMap) : ui.Rearranges ui := by
  intro channel
  cases ui.find? channel with
  | none => exact Option.Rel.none
  | some values => exact Option.Rel.some (List.Perm.refl values)

theorem trans (h : ui.Rearranges ui') (h' : ui'.Rearranges ui'') : ui.Rearranges ui'' := by
  intro channel
  have hfirst := h channel
  have hsecond := h' channel
  generalize ui.find? channel = x at hfirst ⊢
  generalize ui'.find? channel = y at hfirst hsecond
  generalize ui''.find? channel = z at hsecond ⊢
  cases hfirst with
  | none =>
      cases hsecond
      exact Option.Rel.none
  | some hfirst =>
      cases hsecond with
      | some hsecond => exact Option.Rel.some (hfirst.trans hsecond)

theorem perm_getD (h : ui.Rearranges ui') (channel : String) :
    ((ui.find? channel).getD []).Perm ((ui'.find? channel).getD []) := by
  have hchannel := h channel
  generalize ui.find? channel = x at hchannel ⊢
  generalize ui'.find? channel = y at hchannel ⊢
  cases hchannel with
  | none => exact List.Perm.refl []
  | some hperm => exact hperm

theorem merge (h : ui.Rearranges ui') (more : UiMap) :
    (ui.merge more).Rearranges (ui'.merge more) := by
  intro channel
  rw [find?_merge, find?_merge]
  cases more.find? channel with
  | none => exact h channel
  | some values => exact Option.Rel.some ((h.perm_getD channel).append_right values)

end Rearranges

/-- Two reports may be added in either order. -/
theorem merge_right_comm (ui first second : UiMap) :
    ((ui.merge first).merge second).Rearranges ((ui.merge second).merge first) := by
  intro channel
  rw [find?_merge, find?_merge, find?_merge, find?_merge]
  cases first.find? channel with
  | none =>
      have hrefl := Rearranges.refl (ui.merge second) channel
      rwa [find?_merge] at hrefl
  | some values =>
      cases second.find? channel with
      | none => exact Option.Rel.some (List.Perm.refl _)
      | some values' =>
          refine Option.Rel.some ?_
          simp only [Option.getD_some, List.append_assoc]
          exact List.perm_append_comm.append_left _

/-- The same reports added to both. -/
theorem rearranges_foldl (h : ui.Rearranges ui') (reports : List UiMap) :
    (reports.foldl merge ui).Rearranges (reports.foldl merge ui') := by
  induction reports generalizing ui ui' with
  | nil => exact h
  | cons report reports ih => exact ih (h.merge report)

/-- Reports that are added in another order. -/
theorem rearranges_foldl_merge {reports reports' : List UiMap} (hperm : reports.Perm reports')
    (h : ui.Rearranges ui') : (reports.foldl merge ui).Rearranges (reports'.foldl merge ui') := by
  induction hperm generalizing ui ui' with
  | nil => exact h
  | cons report _ ih => exact ih (h.merge report)
  | swap first second reports =>
      have hboth := (merge_right_comm ui second first).trans ((h.merge first).merge second)
      exact rearranges_foldl hboth reports
  | trans _ _ ih ih' => exact (ih h).trans (ih' (Rearranges.refl _))

end StepGraph.UiMap
