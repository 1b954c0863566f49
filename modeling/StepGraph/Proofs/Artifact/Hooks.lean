import StepGraph.Proofs.Artifact.Fingerprint
import StepGraph.Proofs.Artifact.Nesting

/-!
# What the hooks of an artifact see

To check or to fingerprint its parameters an artifact fills the registers as it does for a run, but
it runs no step. So all that a hook of a step finds is what the caller gives: the arguments that the
step would be run with, but for those that come from links.

The checks are made in the order in which the steps run, up to the first one that does not accept,
which decides: `Checked`. The fingerprints are taken in the same order, up to the first failure:
`Fingerprinted`.
-/

namespace StepGraph

open Plan

/-- A call of the hook records only calls with the property, whatever the arguments. -/
def Step.Records (P : HookCall → Prop) (hook : Hook) (step : Step) : Prop :=
  ∀ args, ∀ c ∈ (step.call args hook).calls, P c

namespace Plan

/-- The argument comes from a slot that a link enters. -/
def LinkFed (ng : NodeGraph) (g : Graph) (stage : Stage) (x : String) : Prop :=
  ∃ r, stage.inputMap.find? x = some r ∧ ∃ l ∈ g.links, Targets ng.nodes l r

/-- The arguments are those of `full` without the ones that `dropped` names, in the same order. -/
structure Without (dropped : String → Prop) (args full : Params) : Prop where
  sublist : args.entries.Sublist full.entries
  mem_iff : ∀ e ∈ full.entries, e ∈ args.entries ↔ ¬ dropped e.1

/-! ## The arguments of a hook -/

variable {stage : Stage} {s t : Store} {params : Params} {p : Plan}

theorem filterMap_sublist_filterMap {α β : Type*} {f f' : α → Option β} {as : List α}
    (h : ∀ a ∈ as, f a = none ∨ f a = f' a) : (as.filterMap f).Sublist (as.filterMap f') := by
  induction as with
  | nil => exact List.Sublist.refl _
  | cons a as ih =>
      obtain ⟨ha, has⟩ := List.forall_mem_cons.1 h
      have hrest := ih has
      cases hf' : f' a with
      | none =>
          have hf : f a = none := by rcases ha with ha | ha <;> simp [ha, hf']
          rwa [List.filterMap_cons_none hf, List.filterMap_cons_none hf']
      | some b =>
          rw [List.filterMap_cons_some hf']
          rcases ha with ha | ha
          · rw [List.filterMap_cons_none ha]
            exact hrest.cons b
          · rw [List.filterMap_cons_some (ha.trans hf')]
            exact hrest.cons_cons b

/-- Arguments from a store that lacks some registers of another one are without those that are
read from there. -/
theorem Stage.arguments_without {dropped : String → Prop}
    (h : ∀ x r, stage.inputMap.find? x = some r →
      (dropped x → s.find? r = none) ∧ (¬ dropped x → s.find? r = t.find? r)) :
    Without dropped (stage.arguments s) (stage.arguments t) := by
  constructor
  · refine filterMap_sublist_filterMap fun e he => ?_
    obtain ⟨hdropped, hkept⟩ := h e.1 e.2 (OrderedMap.find?_eq_some_iff.2 he)
    by_cases hx : dropped e.1
    · left
      simp only [hdropped hx, Option.map_none]
    · right
      simp only [hkept hx]
  · intro e he
    rw [← OrderedMap.find?_eq_some_iff, Stage.find?_arguments] at he ⊢
    obtain ⟨r, hr, hvalue⟩ := Option.bind_eq_some_iff.1 he
    obtain ⟨hdropped, hkept⟩ := h e.1 r hr
    rw [hr, Option.bind_some]
    constructor
    · intro hs hx
      rw [hdropped hx] at hs
      cases hs
    · intro hx
      rw [hkept hx, hvalue]

/-- A hook gets the parameters of the inputs that own the registers of its arguments. -/
theorem Stage.find?_arguments_of_seed (hnodup : (Surface.registers p.inputs).Nodup)
    (hs : Store.seed p.inputs params = .ok s) (x : String) (v : Json) :
    (stage.arguments s).find? x = some v ↔ ∃ r name, stage.inputMap.find? x = some r ∧
      p.Owns name r ∧ params.find? name = some v := by
  obtain ⟨s', hs', howned, hothers⟩ := Store.exists_seed hnodup (Store.seed_isOk_iff.1 ⟨s, hs⟩)
  obtain rfl : s' = s := Except.ok.inj (hs'.symm.trans hs)
  rw [Stage.find?_arguments, Option.bind_eq_some_iff]
  refine exists_congr fun r => ?_
  constructor
  · rintro ⟨hr, hv⟩
    obtain ⟨name, i, hi, hri⟩ : ∃ name, p.Owns name r := by
      by_contra hnone
      rw [hothers r (mt exists_owns_iff.2 hnone)] at hv
      cases hv
    exact ⟨name, hr, ⟨i, hi, hri⟩, by rw [← howned name i r hi hri, hv]⟩
  · rintro ⟨name, hr, ⟨i, hi, hri⟩, hv⟩
    exact ⟨hr, by rw [howned name i r hi hri, hv]⟩

/-- What a stage finds at the start is what it finds after other registers than those of the surface
have been written, but for what links bring. -/
theorem NodeGraph.Compiles.arguments_without_linkFed {catalog : Catalog} {g : Graph}
    {options : ExportOptions} {ng : NodeGraph} {order : List Nat} {p p' : Plan}
    (hc : ng.Compiles g options order p) (h : ng.Represents catalog g)
    (hstages : p'.stages = p.stages) (hkeeps : Surface.Keeps p.inputs p'.inputs)
    (hs : Store.seed p'.inputs params = .ok s) (hstage : stage ∈ p'.stages)
    (ht : ∀ r ∈ Surface.registers p'.inputs, t.find? r = s.find? r) :
    Without (LinkFed ng g stage) (stage.arguments s) (stage.arguments t) := by
  have hnodup : (Surface.registers p'.inputs).Nodup :=
    hkeeps.perm.nodup_iff.2 (hc.nodup_registers h)
  obtain ⟨s', hs', -, hothers⟩ := Store.exists_seed hnodup (Store.seed_isOk_iff.1 ⟨s, hs⟩)
  obtain rfl : s' = s := Except.ok.inj (hs'.symm.trans hs)
  rw [hstages, hc.stages_eq] at hstage
  obtain ⟨n, hn, rfl⟩ := List.mem_map.1 hstage
  have hmem := hc.pick_nodes_perm.mem_iff.1 hn
  refine Stage.arguments_without fun x r hx => ⟨?_, ?_⟩
  · rintro ⟨r', hr', l, hl, htargets⟩
    obtain rfl : r = r' := Option.some.inj (hx.symm.trans hr')
    refine hothers r fun hr => ?_
    have hwire : linkWire ng.nodes l ∈ ng.wires g options := mem_wires.2 (Or.inl ⟨l, hl, rfl⟩)
    exact hc.not_mem_wires h (hkeeps.perm.mem_iff.1 hr) hwire
      ((h.register_linkWire_eq_iff_targets (hc.fits l hl)).2 htargets)
  · intro hfree
    have hreads : r ∈ n.inputMap.values :=
      List.mem_map_of_mem (OrderedMap.find?_eq_some_iff.1 hx)
    rcases hc.mem_registers_or_exists_link h hmem hreads with hr | ⟨l, hl, hlink⟩
    · exact (ht r (hkeeps.perm.mem_iff.2 hr)).symm
    · refine absurd ⟨r, hx, l, hl, ?_⟩ hfree
      exact (h.register_linkWire_eq_iff_targets (hc.fits l hl)).1 hlink

end Plan

namespace Artifact

/-- The stages that have the hook, each with its arguments from the store. -/
def hooked (hook : Hook) (stages : List Stage) (s : Store) : List (Stage × Params) :=
  (stages.filter fun g => g.hasHook hook).map fun g => (g, g.arguments s)

variable {hook : Hook} {g : Stage} {args : Params} {stages : List Stage} {s : Store}
  {calls called : List (Stage × Params)}

theorem hooked_cons_of_hook (h : g.hasHook hook = true) :
    hooked hook (g :: stages) s = (g, g.arguments s) :: hooked hook stages s := by
  rw [hooked, hooked, List.filter_cons, if_pos h, List.map_cons]

theorem hooked_cons_of_not_hook (h : ¬ g.hasHook hook = true) :
    hooked hook (g :: stages) s = hooked hook stages s := by
  rw [hooked, hooked, List.filter_cons, if_neg h]

/-! ## Checks -/

/-- The check of the step accepts these arguments. -/
def Accepts (c : Stage × Params) : Prop := (c.1.step.validate c.2).outcome = .ok .valid

/-- Of the checks `calls` those in `called` are made, with this result: all of them if all accept,
and otherwise those up to the first one that does not accept, which rejects or fails. -/
inductive Checked (calls : List (Stage × Params)) :
    List (Stage × Params) → Except RunError Validation → Prop
  | accepted (h : ∀ c ∈ calls, Accepts c) : Checked calls calls (.ok .valid)
  | rejected {before after : List (Stage × Params)} {g : Stage} {args : Params} {reason : String}
      (split : calls = before ++ (g, args) :: after) (accepted : ∀ c ∈ before, Accepts c)
      (rejects : (g.step.validate args).outcome = .ok (.invalid reason)) :
      Checked calls (before ++ [(g, args)]) (.ok (.invalid reason))
  | failed {before after : List (Stage × Params)} {g : Stage} {args : Params} {cause : RunError}
      (split : calls = before ++ (g, args) :: after) (accepted : ∀ c ∈ before, Accepts c)
      (fails : (g.step.validate args).outcome = .error cause) :
      Checked calls (before ++ [(g, args)]) (.error (.within .validate g.node g.type cause))

theorem Checked.cons {c : Stage × Params} {result : Except RunError Validation} (hc : Accepts c)
    (h : Checked calls called result) : Checked (c :: calls) (c :: called) result := by
  cases h with
  | accepted h => exact .accepted (List.forall_mem_cons.2 ⟨hc, h⟩)
  | rejected split accepted rejects =>
      exact .rejected (by rw [split, List.cons_append]) (List.forall_mem_cons.2 ⟨hc, accepted⟩)
        rejects
  | failed split accepted fails =>
      exact .failed (by rw [split, List.cons_append]) (List.forall_mem_cons.2 ⟨hc, accepted⟩) fails

theorem Stage.outcome_validate (h : g.hasHook .validate = true) : (g.validate s).outcome =
    (g.step.validate (g.arguments s)).outcome.mapError (.within .validate g.node g.type) := by
  rw [Stage.validate_of_hasHook h]
  rfl

/-- Stages are checked one after the other. -/
theorem checked_validateStages (stages : List Stage) (s : Store) :
    Checked (hooked .validate stages s) (reachedFrom .validate stages s)
      (validateStages s stages).outcome := by
  induction stages with
  | nil => exact .accepted (by simp [hooked])
  | cons g stages ih =>
      by_cases hhook : g.hasHook .validate = true
      · have hnext := Stage.next?_validate hhook s
        have hstage := Stage.outcome_validate (s := s) hhook
        have hfirst : hooked .validate (g :: stages) s =
            [] ++ (g, g.arguments s) :: hooked .validate stages s := hooked_cons_of_hook hhook
        rw [validateStages]
        cases hg : (g.step.validate (g.arguments s)).outcome with
        | ok v =>
            rw [hg, Except.mapError_ok] at hstage
            rw [hstage] at hnext
            rw [Run.outcome_bind_of_ok hstage]
            cases v with
            | valid =>
                rw [hfirst, reachedFrom_of_next hhook hnext]
                exact ih.cons hg
            | invalid reason =>
                rw [reachedFrom_of_next_none hhook hnext]
                exact .rejected hfirst (by simp) hg
        | error cause =>
            rw [hg, Except.mapError_error] at hstage
            rw [hstage] at hnext
            rw [Run.outcome_bind_of_error hstage, reachedFrom_of_next_none hhook hnext]
            exact .failed hfirst (by simp) hg
      · have hvalid : g.validate s = pure .valid := if_neg hhook
        rw [hooked_cons_of_not_hook hhook, reachedFrom_of_not_hook hhook, validateStages, hvalid,
          pure_bind]
        exact ih

/-! ## Fingerprints -/

/-- The step takes this fingerprint of the arguments. -/
def Takes (c : Stage × Params) (text : String) : Prop :=
  (c.1.step.fingerprint c.2).outcome = .ok text

/-- Of the fingerprints `calls` those in `called` are taken, with this result: all of them, which
makes one text, or those up to the first one that fails. -/
inductive Fingerprinted (calls : List (Stage × Params)) :
    List (Stage × Params) → Except RunError String → Prop
  | taken {texts : List String} (h : List.Forall₂ Takes calls texts) :
      Fingerprinted calls calls (.ok (String.join texts))
  | failed {before after : List (Stage × Params)} {g : Stage} {args : Params} {cause : RunError}
      (split : calls = before ++ (g, args) :: after) (taken : ∀ c ∈ before, ∃ text, Takes c text)
      (fails : (g.step.fingerprint args).outcome = .error cause) :
      Fingerprinted calls (before ++ [(g, args)])
        (.error (.within .fingerprint g.node g.type cause))

theorem Fingerprinted.cons {c : Stage × Params} {text : String} {result : Except RunError String}
    (hc : Takes c text) (h : Fingerprinted calls called result) :
    Fingerprinted (c :: calls) (c :: called) (result.map (text ++ ·)) := by
  cases h with
  | @taken texts h =>
      have htexts : text ++ String.join texts = String.join (text :: texts) :=
        String.join_cons.symm
      rw [Except.map, htexts]
      exact .taken (List.Forall₂.cons hc h)
  | failed split taken fails =>
      exact .failed (by rw [split, List.cons_append]) (List.forall_mem_cons.2 ⟨⟨text, hc⟩, taken⟩)
        fails

/-- The fingerprints of stages are taken one after the other. -/
theorem fingerprinted_fingerprintStages (stages : List Stage) (s : Store) :
    Fingerprinted (hooked .fingerprint stages s) (reachedFrom .fingerprint stages s)
      (fingerprintStages s (stages.filter fun g => g.step.detectsChange)).outcome := by
  induction stages with
  | nil => exact .taken List.Forall₂.nil
  | cons g stages ih =>
      by_cases hhook : g.hasHook .fingerprint = true
      · have hdetects : g.step.detectsChange = true := hhook
        have hnext := g.next?_fingerprint s
        have hstage : (g.fingerprint s).outcome =
            (g.step.fingerprint (g.arguments s)).outcome.mapError
              (.within .fingerprint g.node g.type) := rfl
        have hfirst : hooked .fingerprint (g :: stages) s =
            [] ++ (g, g.arguments s) :: hooked .fingerprint stages s := hooked_cons_of_hook hhook
        rw [List.filter_cons_of_pos (by simpa using hdetects), fingerprintStages]
        cases hg : (g.step.fingerprint (g.arguments s)).outcome with
        | ok text =>
            rw [hg, Except.mapError_ok] at hstage
            rw [hstage] at hnext
            rw [Run.outcome_bind_of_ok hstage, Run.outcome_bind_pure, hfirst,
              reachedFrom_of_next hhook hnext]
            exact ih.cons hg
        | error cause =>
            rw [hg, Except.mapError_error] at hstage
            rw [hstage] at hnext
            rw [Run.outcome_bind_of_error hstage, reachedFrom_of_next_none hhook hnext]
            exact .failed hfirst (by simp) hg
      · have hdetects : ¬ g.step.detectsChange = true := hhook
        rw [List.filter_cons_of_neg (by simpa using hdetects), hooked_cons_of_not_hook hhook,
          reachedFrom_of_not_hook hhook]
        exact ih

/-! ## What is recorded -/

variable {P : HookCall → Prop}

theorem calls_callAll {reached : List (Stage × Params)}
    (h : ∀ c ∈ reached, ∀ d ∈ (c.1.step.call c.2 hook).calls, P d) :
    ∀ d ∈ (callAll hook reached).calls, P d := by
  induction reached with
  | nil => simp [callAll, pure, Run.pure]
  | cons c reached ih =>
      obtain ⟨hc, hreached⟩ := List.forall_mem_cons.1 h
      intro d hd
      rcases Run.mem_calls_bind hd with hd | ⟨_, hd⟩
      · exact hc d hd
      · exact ih hreached d hd

/-- What the steps of an artifact record it records as well, and nothing else. -/
theorem records_step {a : Artifact} (h : ∀ g ∈ a.plan.stages, g.step.Records P hook) :
    a.step.Records P hook := by
  intro params c hc
  have hcalls := Call.calls_run ⟨a, hook, params⟩
  refine calls_callAll (fun d hd => ?_) c (hcalls ▸ hc)
  exact h d.1 (Call.of_mem_reached hd).1 d.2

end Artifact

/-- Steps that are composed of leaves record what leaves record, to any depth. -/
theorem Step.Composed.records {leaf : Step → Prop} {P : HookCall → Prop} {hook : Hook}
    (hleaf : ∀ step, leaf step → step.Records P hook) :
    ∀ {step : Step}, Step.Composed leaf step → step.Records P hook
  | _, .leaf h => hleaf _ h
  | _, @Step.Composed.artifact _ ⟨_, _, _, _⟩ (.intro steps compiled rs) => by
      have hbuilt : Plan.BuiltFrom (Step.Records P hook) _ :=
        .intro (fun n hn step hstep => Step.Composed.records hleaf (steps n hn step hstep))
          compiled rs
      exact Artifact.records_step fun g hg => (hbuilt.of_mem_stages hg).1

/-! ## Artifacts of compiled graphs -/

theorem Plan.Pipelined.not_writesTo {p : Plan} (h : p.Pipelined) {r : Register}
    (hr : r ∈ Surface.registers p.inputs) {m : Stage} (hm : m ∈ p.stages) : ¬ m.WritesTo r := by
  rintro ⟨k, registers, hk, hmem⟩
  obtain ⟨name, hname⟩ := exists_owns_iff.2 hr
  obtain ⟨i, hi⟩ := List.mem_iff_getElem?.1 hm
  exact h.not_written name r hname i k ⟨m, registers, hi, hk, hmem⟩

namespace Artifact

/-- The artifact of a compiled graph, however its inputs are merged and renamed, checks and
fingerprints parameters by the hooks of its steps. A hook gets the parameters of the inputs that own
the registers of its arguments, and these are the arguments that the step is run with if it is
reached, without the ones that links feed. The checks are made in the order of a run up to the first
that does not accept, and the fingerprints are taken in this order up to the first that fails. No
other hook is called; if the leaves that the steps are composed of do not record to have been run,
the artifact does not either. -/
theorem hooks_see_given_arguments (start : Register) (catalog : Catalog) (g : Graph)
    (options : ExportOptions) (p : Plan) (h : compileFrom start catalog g options = .ok p)
    (rs : List Reshaping) (a : Artifact) (ha : a.plan = p.reshapeAll rs) (params : Params)
    (hparams : ∀ x ∈ params.keys, x ∈ a.plan.inputs.keys) :
    ∃ ng s, createNodes catalog start g.nodes = .ok ng ∧
      Store.seed a.plan.inputs params = .ok s ∧
      (∀ stage ∈ a.plan.stages,
        (∀ x v, (stage.arguments s).find? x = some v ↔ ∃ r name,
          stage.inputMap.find? x = some r ∧ a.plan.Owns name r ∧ params.find? name = some v) ∧
        ∀ full, (stage, full) ∈ Call.reached ⟨a, .invoke, params⟩ →
          Without (LinkFed ng g stage) (stage.arguments s) full) ∧
      (Checked (hooked .validate a.plan.stages s) (Call.reached ⟨a, .validate, params⟩)
          (a.validate params).outcome ∧
        (a.validate params).void = callAll .validate (Call.reached ⟨a, .validate, params⟩)) ∧
      (Fingerprinted (hooked .fingerprint a.plan.stages s) (Call.reached ⟨a, .fingerprint, params⟩)
          (a.fingerprint params).outcome ∧
        (a.fingerprint params).void =
          callAll .fingerprint (Call.reached ⟨a, .fingerprint, params⟩)) ∧
      ∀ (leaf : Step → Prop) (hook : Hook),
        (∀ n ∈ g.nodes, ∀ step, catalog n.type = some step → Step.Composed leaf step) →
        (∀ step, leaf step → step.Records (fun c => c.hook ≠ .invoke) hook) →
          a.step.Records (fun c => c.hook ≠ .invoke) hook := by
  obtain ⟨ng, order, hcreate, hrepresents, hcompiles⟩ := compiles_of_compileFrom_eq_ok h
  obtain ⟨hstages, houtputs, hkeeps⟩ := p.reshapeAll_keeps rs
  rw [← ha] at hstages houtputs hkeeps
  have hpipelined := hcompiles.pipelined hrepresents hstages houtputs hkeeps
  obtain ⟨s, hs⟩ := Store.seed_isOk_iff.2 hparams
  refine ⟨ng, s, hcreate, hs, fun stage hstage => ⟨?_, fun full hfull => ?_⟩, ?_, ?_, ?_⟩
  · exact Stage.find?_arguments_of_seed hpipelined.nodup hs
  · rw [Call.reached_of_seed hs] at hfull
    obtain ⟨-, t, rfl, ht⟩ := of_mem_reachedFrom hfull
    refine hcompiles.arguments_without_linkFed hrepresents hstages hkeeps hs hstage fun r hr => ?_
    exact ht r fun m hm => hpipelined.not_writesTo hr hm
  · rw [Call.reached_of_seed hs, validate, hs, Run.ofExcept_ok, pure_bind]
    exact ⟨checked_validateStages _ s, void_validateStages⟩
  · rw [Call.reached_of_seed hs, fingerprint, hs, Run.ofExcept_ok, pure_bind]
    exact ⟨fingerprinted_fingerprintStages _ s, void_fingerprintStages⟩
  · intro leaf hook hcomposed hleaf
    have hbuilt : (p.reshapeAll rs).BuiltFrom (Step.Composed leaf) := .intro hcomposed h rs
    rw [← ha] at hbuilt
    exact (Step.Composed.artifact hbuilt).records hleaf

/-- A relay that wants a value. -/
def wantingStep : Step :=
  { relayStep with
    validates := true
    validate := fun params => pure <|
      if params.contains "value" then .valid else .invalid "no value" }

/-- Knows such relays only. -/
def wantingCatalog : Catalog := fun type => if type = "relay" then some wantingStep else none

/-- The relay that a link feeds would be run with a value, but its check does not see it. The relay
after it is not checked any more. -/
theorem wanting_hooks_see_given_arguments :
    ∃ p, compileFrom .first wantingCatalog relayGraph .default = .ok p ∧
      (∀ x ∈ (OrderedMap.ofList [("value", Json.bool true)]).keys,
        x ∈ (ofPlan "wanting" p).plan.inputs.keys) ∧
      ∃ s, Checked (hooked .validate p.stages s)
          (Call.reached ⟨ofPlan "wanting" p, .validate, .ofList [("value", .bool true)]⟩)
          ((ofPlan "wanting" p).validate (.ofList [("value", .bool true)])).outcome ∧
        (hooked .validate p.stages s).map (fun c => (c.1.node.text, c.2.entries)) =
          [("early", [("value", .bool true)]), ("late", []), ("spare", [])] ∧
        ((ofPlan "wanting" p).validate (.ofList [("value", .bool true)])).outcome =
          .ok (.invalid "no value") := by
  obtain ⟨p, hp⟩ : ∃ p, compileFrom .first wantingCatalog relayGraph .default = .ok p := ⟨_, rfl⟩
  have hparams : ∀ x ∈ (OrderedMap.ofList [("value", Json.bool true)]).keys,
      x ∈ (ofPlan "wanting" p).plan.inputs.keys := by
    cases hp
    decide
  obtain ⟨-, s, -, hs, -, ⟨hchecked, -⟩, -⟩ := hooks_see_given_arguments .first wantingCatalog
    relayGraph .default p hp [] (ofPlan "wanting" p) rfl _ hparams
  refine ⟨p, hp, hparams, s, hchecked, ?_, ?_⟩
  · cases hp
    cases hs
    rfl
  · cases hp
    rfl

end Artifact

end StepGraph
