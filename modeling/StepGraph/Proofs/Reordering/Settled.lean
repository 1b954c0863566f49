import StepGraph.Proofs.Artifact.Calls
import StepGraph.Proofs.Reordering.Report
import StepGraph.Proofs.Stage.Access

/-!
# Stages and the store they settle into

Stages are in order if each register is written by one of them at most, and read by later ones only.
Running them settles the store: in the store at the end, every stage gets the arguments it was run
with, and its registers hold what it writes for them; the registers of no stage hold what they held
before. This says nothing of an order any more, and it decides what is called and what is reported.
So the same stages do the same in every order that is right for them.
-/

namespace StepGraph

open Plan

namespace Plan

/-- No register is written by two stages, and none is read before or while it is written. -/
inductive Ordered : List Stage → Prop
  | nil : Ordered []
  | cons {g : Stage} {stages : List Stage}
    (writes : ∀ r, g.WritesTo r → ∀ m ∈ stages, ¬ m.WritesTo r)
    (reads : ∀ r, g.ReadsFrom r → ∀ m ∈ g :: stages, ¬ m.WritesTo r)
    (tail : Ordered stages) : Ordered (g :: stages)

/-- In the store `t`, each stage succeeds and its registers hold what it writes to them over `s`,
and the other registers hold what they hold in `s`. -/
structure Settled (stages : List Stage) (s t : Store) : Prop where
  written : ∀ g ∈ stages, ∃ output, (g.step.invoke (g.arguments t)).outcome = .ok output ∧
    ∀ r, g.WritesTo r → t.find? r = (Stage.write g.outputs output.values s).find? r
  kept : ∀ r, (∀ g ∈ stages, ¬ g.WritesTo r) → t.find? r = s.find? r

/-- What the stage reports when it is run; nothing if it fails. -/
def Stage.report (g : Stage) (s : Store) : UiMap :=
  match (g.step.invoke (g.arguments s)).outcome with
  | .ok output => output.ui
  | .error _ => .empty

variable {g : Stage} {stages stages' : List Stage} {s s' t t' : Store} {output : StepOutput}

theorem Stage.report_of_invoke (h : (g.step.invoke (g.arguments s)).outcome = .ok output) :
    g.report s = output.ui := by
  rw [report, h]

theorem Settled.perm (h : Settled stages s t) (hperm : stages'.Perm stages) :
    Settled stages' s t :=
  ⟨fun g hg => h.written g (hperm.mem_iff.1 hg),
    fun r hr => h.kept r fun g hg => hr g (hperm.mem_iff.2 hg)⟩

/-- What is written over a store matters only where the store is not written to. -/
theorem Stage.find?_write_of_writesTo {r : Register} {values : List Json}
    (h : s.find? r = s'.find? r) :
    (write g.outputs values s).find? r = (write g.outputs values s').find? r :=
  find?_write_congr (fun _ => Iff.rfl) h values

section

variable (writes : ∀ r, g.WritesTo r → ∀ m ∈ stages, ¬ m.WritesTo r)
  (reads : ∀ r, g.ReadsFrom r → ∀ m ∈ g :: stages, ¬ m.WritesTo r)

include writes reads

/-- The stages after the first one settle the store that the first one leaves. -/
theorem settled_cons_iff :
    Settled (g :: stages) s t ↔
      ∃ output, (g.step.invoke (g.arguments s)).outcome = .ok output ∧
        Settled stages (Stage.write g.outputs output.values s) t := by
  constructor
  · intro h
    have hargs : g.arguments t = g.arguments s :=
      Stage.arguments_eq_of_readsFrom fun r hr => h.kept r (reads r hr)
    obtain ⟨output, hinvoke, hwritten⟩ := h.written g (List.mem_cons_self ..)
    rw [hargs] at hinvoke
    refine ⟨output, hinvoke, fun m hm => ?_, fun r hr => ?_⟩
    · obtain ⟨output', hinvoke', hwritten'⟩ := h.written m (List.mem_cons_of_mem g hm)
      refine ⟨output', hinvoke', fun r hr => ?_⟩
      have hnot : ¬ g.WritesTo r := fun hg => writes r hg m hm hr
      rw [hwritten' r hr]
      exact Stage.find?_write_of_writesTo (Stage.find?_write_of_not_writesTo hnot _).symm
    · by_cases hg : g.WritesTo r
      · exact hwritten r hg
      · rw [Stage.find?_write_of_not_writesTo hg]
        exact h.kept r (List.forall_mem_cons.2 ⟨hg, hr⟩)
  · rintro ⟨output, hinvoke, h⟩
    have hargs : g.arguments t = g.arguments s := by
      refine Stage.arguments_eq_of_readsFrom fun r hr => ?_
      obtain ⟨hg, hothers⟩ := List.forall_mem_cons.1 (reads r hr)
      rw [h.kept r hothers, Stage.find?_write_of_not_writesTo hg]
    refine ⟨List.forall_mem_cons.2 ⟨⟨output, hargs ▸ hinvoke, fun r hr => ?_⟩, fun m hm => ?_⟩,
      fun r hr => ?_⟩
    · exact h.kept r (writes r hr)
    · obtain ⟨output', hinvoke', hwritten'⟩ := h.written m hm
      refine ⟨output', hinvoke', fun r hr => ?_⟩
      have hnot : ¬ g.WritesTo r := fun hg => writes r hg m hm hr
      rw [hwritten' r hr]
      exact Stage.find?_write_of_writesTo (Stage.find?_write_of_not_writesTo hnot _)
    · obtain ⟨hg, hothers⟩ := List.forall_mem_cons.1 hr
      rw [h.kept r hothers, Stage.find?_write_of_not_writesTo hg]

end

end Plan

namespace Artifact

variable {stages stages' : List Stage} {s s' t : Store} {ui ui' : UiMap}

/-- Stages that are in order settle the store when they are run. -/
theorem settled_of_processStages (hordered : Ordered stages)
    (h : (processStages stages s ui).outcome = .ok (t, ui')) : Settled stages s t := by
  induction hordered generalizing s ui with
  | nil =>
      cases h
      exact ⟨by simp, fun r _ => rfl⟩
  | cons writes reads _ ih =>
      obtain ⟨⟨s₁, ui₁⟩, hg, hrest⟩ := Run.outcome_bind_eq_ok_iff.1 h
      obtain ⟨output, hinvoke, rfl, -⟩ := Stage.process_eq_ok_iff.1 hg
      exact (settled_cons_iff writes reads).2 ⟨output, hinvoke, ih hrest⟩

/-- A store that stages settle is what they come to, and it says what they are called with and what
they report. -/
theorem processStages_of_settled (hordered : Ordered stages) (h : Settled stages s t) (ui : UiMap) :
    ∃ t', (processStages stages s ui).outcome =
        .ok (t', (stages.map fun g => g.report t).foldl UiMap.merge ui) ∧
      t'.Agrees t ∧
      reachedFrom .invoke stages s = stages.map fun g => (g, g.arguments t) := by
  induction hordered generalizing s ui with
  | nil => exact ⟨s, rfl, fun r => (h.kept r (by simp)).symm, rfl⟩
  | @cons g stages writes reads _ ih =>
      have hargs : g.arguments t = g.arguments s :=
        Stage.arguments_eq_of_readsFrom fun r hr => h.kept r (reads r hr)
      obtain ⟨output, hinvoke, hrest⟩ := (settled_cons_iff writes reads).1 h
      have hg : (g.process s ui).outcome =
          .ok (Stage.write g.outputs output.values s, ui.merge output.ui) :=
        Stage.process_eq_ok_iff.2 ⟨output, hinvoke, rfl, rfl⟩
      have hreport : g.report t = output.ui := by
        rw [← hargs] at hinvoke
        exact Stage.report_of_invoke hinvoke
      obtain ⟨t', hrun, hagrees, hreached⟩ := ih hrest (ui.merge output.ui)
      refine ⟨t', ?_, hagrees, ?_⟩
      · rw [List.map_cons, List.foldl_cons, hreport]
        exact Run.outcome_bind_eq_ok_iff.2 ⟨_, hg, hrun⟩
      · have hnext := g.next?_invoke s ui
        rw [hg] at hnext
        rw [reachedFrom_of_next rfl hnext, hreached, List.map_cons, hargs]

/-- The same stages in another order that is right for them do the same: they are called with the
same arguments, leave the same store and report the same. -/
theorem processStages_reorder (hordered : Ordered stages) (hordered' : Ordered stages')
    (hperm : stages'.Perm stages) (h : (processStages stages s ui).outcome = .ok (t, ui')) :
    ∃ t' ui'', (processStages stages' s ui).outcome = .ok (t', ui'') ∧ t'.Agrees t ∧
      ui'.Rearranges ui'' ∧
      (reachedFrom .invoke stages' s).Perm (reachedFrom .invoke stages s) := by
  have hsettled := settled_of_processStages hordered h
  obtain ⟨t₁, hrun, -, hreached⟩ := processStages_of_settled hordered hsettled ui
  obtain ⟨t', hrun', hagrees, hreached'⟩ :=
    processStages_of_settled hordered' (hsettled.perm hperm) ui
  rw [h] at hrun
  obtain ⟨-, rfl⟩ := Prod.mk.inj (Except.ok.inj hrun)
  refine ⟨t', _, hrun', hagrees, ?_, ?_⟩
  · exact UiMap.rearranges_foldl_merge (hperm.symm.map _) (UiMap.Rearranges.refl ui)
  · rw [hreached, hreached']
    exact hperm.map _

end Artifact

end StepGraph
