import StepGraph.Proofs.Artifact.Calls
import StepGraph.Proofs.Pipeline

/-!
# Compiled graphs that mirror each other

Two compiled graphs mirror each other if their stages do, one for one, and if inputs of the same
names own related registers. Parameters are then refused by both, with the same error, or they fill
related registers with the same values. So the same calls are made with the same arguments, and
outputs that are read from related registers have the same values.
-/

namespace StepGraph

open Plan

variable {R : Register → Register → Prop} {s s' : Store} {params : Params}

/-- The stages mirror each other, and inputs of the same names own related registers. -/
structure Plan.Mirrors (R : Register → Register → Prop) (p p' : Plan) : Prop where
  stages : List.Forall₂ (Stage.Mirrors R) p.stages p'.stages
  keys : ∀ x, x ∈ p.inputs.keys ↔ x ∈ p'.inputs.keys
  owns : ∀ r r', R r r' → ∀ x, p.Owns x r ↔ p'.Owns x r'
  nodup : (Surface.registers p.inputs).Nodup
  nodup' : (Surface.registers p'.inputs).Nodup

namespace Plan

variable {p p' : Plan}

theorem Mirrors.map_node (h : p.Mirrors R p') :
    p.stages.map Stage.node = p'.stages.map Stage.node :=
  map_eq_map_iff_forall₂.2 (h.stages.imp fun _ _ hg => hg.node)

theorem Mirrors.map_step (h : p.Mirrors R p') :
    p.stages.map Stage.step = p'.stages.map Stage.step :=
  map_eq_map_iff_forall₂.2 (h.stages.imp fun _ _ hg => hg.step)

/-- Each register that an input owns holds the parameter of the input, and all others are empty. -/
theorem find?_of_seed (hnodup : (Surface.registers p.inputs).Nodup)
    (hs : Store.seed p.inputs params = .ok s) {r : Register} :
    (∀ x, p.Owns x r → s.find? r = params.find? x) ∧ ((¬ ∃ x, p.Owns x r) → s.find? r = none) := by
  obtain ⟨t, ht, howned, hothers⟩ := Store.exists_seed hnodup (Store.seed_isOk_iff.1 ⟨s, hs⟩)
  obtain rfl : s = t := Except.ok.inj (hs.symm.trans ht)
  constructor
  · rintro x ⟨i, hi, hr⟩
    exact howned x i r hi hr
  · intro h
    exact hothers r (mt exists_owns_iff.2 h)

/-- Parameters are refused by both, or they fill related registers with the same values. -/
theorem Mirrors.seeds (h : p.Mirrors R p') (params : Params) :
    (∃ e, Store.seed p.inputs params = .error e ∧ Store.seed p'.inputs params = .error e) ∨
      ∃ s s', Store.seed p.inputs params = .ok s ∧ Store.seed p'.inputs params = .ok s' ∧
        s.Mirrors R s' := by
  cases hs : Store.seed p.inputs params with
  | error e => exact Or.inl ⟨e, rfl, (Store.seed_eq_error_congr h.keys).1 hs⟩
  | ok s =>
      have hparams := Store.seed_isOk_iff.1 ⟨s, hs⟩
      obtain ⟨s', hs'⟩ := Store.seed_isOk_iff.2 fun x hx => (h.keys x).1 (hparams x hx)
      refine Or.inr ⟨s, s', rfl, hs', fun r r' hr => ?_⟩
      obtain ⟨howned, hothers⟩ := @find?_of_seed _ _ _ h.nodup hs r
      obtain ⟨howned', hothers'⟩ := @find?_of_seed _ _ _ h.nodup' hs' r'
      by_cases hown : ∃ x, p.Owns x r
      · obtain ⟨x, hx⟩ := hown
        rw [howned x hx, howned' x ((h.owns r r' hr x).1 hx)]
      · rw [hothers hown, hothers']
        rintro ⟨x, hx⟩
        exact hown ⟨x, (h.owns r r' hr x).2 hx⟩

end Plan

namespace Artifact

/-! ## Calls -/

theorem next?_mirrors {g g' : Stage} (h : g.Mirrors R g') (hs : s.Mirrors R s') (hook : Hook) :
    Option.Rel (Store.Mirrors R) (g.next? s hook) (g'.next? s' hook) := by
  cases hook with
  | invoke =>
      rw [Stage.next?, Stage.next?, h.arguments hs, h.step]
      cases (g'.step.invoke (g'.arguments s')).outcome with
      | ok output => exact Option.Rel.some (h.write hs output.values)
      | error e => exact Option.Rel.none
  | validate =>
      rw [Stage.next?, Stage.next?, h.arguments hs, h.step]
      cases (g'.step.validate (g'.arguments s')).outcome with
      | ok v =>
          cases v with
          | valid => exact Option.Rel.some hs
          | invalid reason => exact Option.Rel.none
      | error e => exact Option.Rel.none
  | fingerprint =>
      rw [Stage.next?, Stage.next?, h.arguments hs, h.step]
      cases (g'.step.fingerprint (g'.arguments s')).outcome with
      | ok text => exact Option.Rel.some hs
      | error e => exact Option.Rel.none

theorem reachedFrom_mirrors {stages stages' : List Stage}
    (h : List.Forall₂ (Stage.Mirrors R) stages stages') (hs : s.Mirrors R s') (hook : Hook) :
    List.Forall₂ (fun c c' => c.1.Mirrors R c'.1 ∧ c.2 = c'.2) (reachedFrom hook stages s)
      (reachedFrom hook stages' s') := by
  induction h generalizing s s' with
  | nil => exact List.Forall₂.nil
  | @cons g g' stages stages' hg _ ih =>
      have hhook : g.hasHook hook = g'.hasHook hook := by
        cases hook <;> simp only [Stage.hasHook, hg.step]
      have hnext := next?_mirrors hg hs hook
      rw [reachedFrom, reachedFrom, hhook]
      split
      · refine List.Forall₂.cons ⟨hg, hg.arguments hs⟩ ?_
        generalize g.next? s hook = t at hnext ⊢
        generalize g'.next? s' hook = t' at hnext ⊢
        cases hnext with
        | none => exact List.Forall₂.nil
        | some ht => exact ih ht
      · exact ih hs

/-! ## Values -/

theorem readOutputs_eq_ok_iff {outputs : List ExportedOutput} {values : List Json} :
    readOutputs s outputs = .ok values ↔
      List.Forall₂ (fun o value => s.find? o.register = some value) outputs values := by
  induction outputs generalizing values with
  | nil => simp [readOutputs, eq_comm]
  | cons o outputs ih =>
      rw [readOutputs, List.forall₂_cons_left_iff]
      cases ho : s.find? o.register with
      | none => simp
      | some value =>
          simp only [← ih, Option.some.injEq]
          cases readOutputs s outputs with
          | error e => simp [Except.map]
          | ok rest => simp [Except.map, eq_comm]

variable {a a' : Artifact} (h : a.plan.Mirrors R a'.plan)

include h

/-- The same calls are reached, with the same arguments. -/
theorem reached_mirrors (hook : Hook) (params : Params) :
    List.Forall₂ (fun c c' => c.1.Mirrors R c'.1 ∧ c.2 = c'.2) (Call.reached ⟨a, hook, params⟩)
      (Call.reached ⟨a', hook, params⟩) := by
  rcases h.seeds params with ⟨e, he, he'⟩ | ⟨s, s', hs, hs', hmirrors⟩
  · rw [Call.reached, Call.reached, he, he']
    exact List.Forall₂.nil
  · rw [Call.reached, Call.reached, hs, hs']
    exact reachedFrom_mirrors h.stages hmirrors hook

/-- Where both runs succeed they report the same, and outputs that are read from related registers
have the same values. -/
theorem results_mirror {result result' : ProcessResult}
    (hresult : (a.process params).outcome = .ok result)
    (hresult' : (a'.process params).outcome = .ok result') :
    result.ui = result'.ui ∧ ∀ (i j : Nat) (o o' : ExportedOutput),
      a.plan.outputs[i]? = some o → a'.plan.outputs[j]? = some o' → R o.register o'.register →
        result.values[i]? = result'.values[j]? := by
  obtain ⟨s, t, hs, hrun, hvalues⟩ := process_eq_ok_iff.1 hresult
  obtain ⟨s', t', hs', hrun', hvalues'⟩ := process_eq_ok_iff.1 hresult'
  rcases h.seeds params with ⟨e, he, -⟩ | ⟨s₁, s₁', hs₁, hs₁', hmirrors⟩
  · cases he.symm.trans hs
  obtain rfl := Except.ok.inj (hs₁.symm.trans hs)
  obtain rfl := Except.ok.inj (hs₁'.symm.trans hs')
  have hmatches := matches_processStages h.stages hmirrors .empty
  generalize processStages a.plan.stages s₁ .empty = run at hrun hmatches
  generalize processStages a'.plan.stages s₁' .empty = run' at hrun' hmatches
  cases hmatches with
  | error => cases hrun
  | ok hends =>
      cases hrun
      cases hrun'
      refine ⟨hends.2, fun i j o o' hi hj hr => ?_⟩
      have hvalue : ∀ {t : Store} {outputs : List ExportedOutput} {values : List Json} {k : Nat}
          {o : ExportedOutput}, readOutputs t outputs = .ok values → outputs[k]? = some o →
            values[k]? = t.find? o.register := by
        intro t outputs values k o hread hk
        have hall := List.forall₂_iff_get.1 (readOutputs_eq_ok_iff.1 hread)
        obtain ⟨hlt, rfl⟩ := List.getElem?_eq_some_iff.1 hk
        have hlt' : k < values.length := hall.1 ▸ hlt
        rw [List.getElem?_eq_getElem hlt']
        exact (hall.2 k hlt hlt').symm
      rw [hvalue hvalues hi, hvalue hvalues' hj]
      exact hends.1 _ _ hr

/-- If the outputs are read from related registers too, under the same names, both do the same with
all parameters. -/
theorem runs_eq_of_plan_mirrors
    (houtputs : List.Forall₂ (fun o o' => o.name = o'.name ∧ R o.register o'.register)
      a.plan.outputs a'.plan.outputs) (params : Params) :
    a.process params = a'.process params ∧ a.validate params = a'.validate params ∧
      a.fingerprint params = a'.fingerprint params := by
  rcases h.seeds params with ⟨e, he, he'⟩ | ⟨s, s', hs, hs', hmirrors⟩
  · simp only [process, validate, fingerprint, he, he']
    exact ⟨rfl, rfl, rfl⟩
  · exact runs_eq_of_mirrors h.stages houtputs hs hs' hmirrors

end Artifact

end StepGraph
