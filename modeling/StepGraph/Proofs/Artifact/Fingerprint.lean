import StepGraph.Proofs.Artifact.Agreement
import StepGraph.Proofs.Compilation
import StepGraph.Step.Builtin

/-!
# What a fingerprint tells apart

The fingerprint of an artifact is one text, made of the texts that its steps report, one after the
other and with nothing in between. So two fingerprints are the same text exactly if the reports have
the same concatenation, which reports that differ may have: `"1", "23"` and `"12", "3"` do.

This takes two reports at least that differ. At the first place where they do, one report is a
proper prefix of the other, and at the last place one is a proper suffix of the other: a boundary
between two reports has moved. A change of one report alone always shows.
-/

namespace StepGraph

open Plan

/-! ## The first and the last place where lists differ -/

section

variable {α : Type*} {as bs : List α}

theorem exists_first_ne (hlength : as.length = bs.length) (hne : as ≠ bs) :
    ∃ before a b as' bs', as = before ++ a :: as' ∧ bs = before ++ b :: bs' ∧ a ≠ b ∧
      as'.length = bs'.length := by
  induction as generalizing bs with
  | nil => exact absurd (List.eq_nil_of_length_eq_zero hlength.symm).symm hne
  | cons a as ih =>
      cases bs with
      | nil => simp at hlength
      | cons b bs =>
          have hrest : as.length = bs.length := by simpa using hlength
          by_cases hab : a = b
          · obtain ⟨before, c, d, as', bs', rfl, rfl, hcd, hafter⟩ :=
              ih hrest fun h => hne (by rw [hab, h])
            exact ⟨a :: before, c, d, as', bs', rfl, by rw [hab]; rfl, hcd, hafter⟩
          · exact ⟨[], a, b, as, bs, rfl, rfl, hab, hrest⟩

theorem exists_last_ne (hlength : as.length = bs.length) (hne : as ≠ bs) :
    ∃ as' bs' a b after, as = as' ++ a :: after ∧ bs = bs' ++ b :: after ∧ a ≠ b ∧
      as'.length = bs'.length := by
  have hlength' : as.reverse.length = bs.reverse.length := by simpa using hlength
  obtain ⟨after, a, b, as', bs', has, hbs, hab, hbefore⟩ :=
    exists_first_ne hlength' fun h => hne (List.reverse_injective h)
  refine ⟨as'.reverse, bs'.reverse, a, b, after.reverse, ?_, ?_, hab, by simpa using hbefore⟩
  · simpa using congrArg List.reverse has
  · simpa using congrArg List.reverse hbs

end

/-! ## Lists of texts with the same concatenation -/

/-- Two lists of texts have other boundaries between their texts. At the first place where they
differ one text is a prefix of the other, and at the last such place, a later one, one text is a
suffix of the other. -/
def BoundariesMoved (xs ys : List String) : Prop :=
  ∃ before x y mid mid' z w after,
    xs = before ++ x :: mid ++ z :: after ∧ ys = before ++ y :: mid' ++ w :: after ∧
    mid.length = mid'.length ∧
    (x ≠ y ∧ (x.toList <+: y.toList ∨ y.toList <+: x.toList)) ∧
    (z ≠ w ∧ (z.toList <:+ w.toList ∨ w.toList <:+ z.toList))

theorem prefix_or_prefix_of_append_eq {x x' y y' : String} (h : x ++ x' = y ++ y') :
    x.toList <+: y.toList ∨ y.toList <+: x.toList := by
  have hlists := congrArg String.toList h
  rw [String.toList_append, String.toList_append] at hlists
  exact List.prefix_or_prefix_of_prefix ⟨_, hlists⟩ ⟨_, rfl⟩

theorem suffix_or_suffix_of_append_eq {x x' y y' : String} (h : x' ++ x = y' ++ y) :
    x.toList <:+ y.toList ∨ y.toList <:+ x.toList := by
  have hlists := congrArg String.toList h
  rw [String.toList_append, String.toList_append] at hlists
  exact List.suffix_or_suffix_of_suffix ⟨_, hlists⟩ ⟨_, rfl⟩

/-- Different lists of texts have the same concatenation only if boundaries have moved. -/
theorem boundariesMoved_of_join_eq {xs ys : List String} (hlength : xs.length = ys.length)
    (hne : xs ≠ ys) (hjoin : String.join xs = String.join ys) : BoundariesMoved xs ys := by
  obtain ⟨before, x, y, xs', ys', rfl, rfl, hxy, hrest⟩ := exists_first_ne hlength hne
  have hfirst : x ++ String.join xs' = y ++ String.join ys' := by
    simpa only [String.join_append, String.join_cons, String.append_right_inj] using hjoin
  -- a single change would be left alone between equal texts
  have hmore : xs' ≠ ys' := by
    rintro rfl
    exact hxy ((String.append_left_inj _).1 hfirst)
  obtain ⟨mid, mid', z, w, after, rfl, rfl, hzw, hmid⟩ := exists_last_ne hrest hmore
  have hlast : x ++ String.join mid ++ z = y ++ String.join mid' ++ w := by
    refine (String.append_left_inj (String.join after)).1 ?_
    simpa only [String.join_append, String.join_cons, String.append_assoc] using hfirst
  refine ⟨before, x, y, mid, mid', z, w, after, by simp, by simp, hmid, ⟨hxy, ?_⟩, hzw, ?_⟩
  · exact prefix_or_prefix_of_append_eq hfirst
  · exact suffix_or_suffix_of_append_eq hlast

namespace Artifact

/-! ## The fingerprint and what the steps report -/

/-- The stages report these fingerprints from the store. -/
def StagesReport (s : Store) (stages : List Stage) (texts : List String) : Prop :=
  List.Forall₂ (fun g text => (g.step.fingerprint (g.arguments s)).outcome = .ok text) stages texts

/-- With these parameters the steps that detect changes report these fingerprints, in the order in
which the steps run. -/
def Reports (a : Artifact) (params : Params) (texts : List String) : Prop :=
  ∃ s, Store.seed a.plan.inputs params = .ok s ∧
    StagesReport s (a.plan.stages.filter fun g => g.step.detectsChange) texts

variable {a : Artifact} {params : Params} {s : Store} {stages : List Stage} {t : String}
  {texts texts' : List String}

theorem StagesReport.unique (h : StagesReport s stages texts) (h' : StagesReport s stages texts') :
    texts = texts' := by
  induction h generalizing texts' with
  | nil =>
      cases h'
      rfl
  | cons hg _ ih =>
      cases h' with
      | cons hg' hrest =>
          rw [Except.ok.inj (hg.symm.trans hg'), ih hrest]

theorem Reports.unique (h : a.Reports params texts) (h' : a.Reports params texts') :
    texts = texts' := by
  obtain ⟨s, hs, hreport⟩ := h
  obtain ⟨s', hs', hreport'⟩ := h'
  obtain rfl := Except.ok.inj (hs.symm.trans hs')
  exact hreport.unique hreport'

/-- There is one report for each step that detects changes. -/
theorem Reports.length_eq (h : a.Reports params texts) :
    texts.length = (a.plan.stages.filter fun g => g.step.detectsChange).length := by
  obtain ⟨s, -, hreport⟩ := h
  exact hreport.length_eq.symm

theorem fingerprintStages_eq_ok_iff :
    (fingerprintStages s stages).outcome = .ok t ↔
      ∃ texts, StagesReport s stages texts ∧ t = String.join texts := by
  induction stages generalizing t with
  | nil =>
      constructor
      · intro h
        exact ⟨[], List.Forall₂.nil, (Except.ok.inj h).symm⟩
      · rintro ⟨texts, h, rfl⟩
        cases h
        rfl
  | cons g stages ih =>
      rw [fingerprintStages, Run.outcome_bind_eq_ok_iff]
      simp only [Run.outcome_bind_eq_ok_iff, ih, Stage.fingerprint, Run.mapError,
        Except.mapError_eq_ok_iff]
      constructor
      · rintro ⟨text, htext, -, ⟨texts, hrest, rfl⟩, h⟩
        refine ⟨text :: texts, List.Forall₂.cons htext hrest, ?_⟩
        rw [String.join_cons]
        exact (Except.ok.inj h).symm
      · rintro ⟨_, _ | ⟨htext, hrest⟩, rfl⟩
        exact ⟨_, htext, _, ⟨_, hrest, rfl⟩, congrArg Except.ok String.join_cons.symm⟩

/-- A fingerprint is what the steps report, one after the other. -/
theorem fingerprint_eq_ok_iff :
    (a.fingerprint params).outcome = .ok t ↔
      ∃ texts, a.Reports params texts ∧ t = String.join texts := by
  rw [fingerprint, Run.outcome_bind_eq_ok_iff]
  simp only [fingerprintStages_eq_ok_iff, Reports]
  constructor
  · rintro ⟨s, hs, texts, hreport, rfl⟩
    exact ⟨texts, ⟨s, hs, hreport⟩, rfl⟩
  · rintro ⟨texts, ⟨s, hs, hreport⟩, rfl⟩
    exact ⟨s, hs, texts, hreport, rfl⟩

/-- A fingerprint is the concatenation of what the steps report. If the reports for two lists of
parameters differ, so do the fingerprints, unless boundaries between reports have moved. -/
theorem fingerprint_separates_reports (a : Artifact) (params params' : Params) (t t' : String)
    (h : (a.fingerprint params).outcome = .ok t)
    (h' : (a.fingerprint params').outcome = .ok t') :
    ∃ texts texts', (∀ xs, a.Reports params xs ↔ xs = texts) ∧
      (∀ xs, a.Reports params' xs ↔ xs = texts') ∧ texts.length = texts'.length ∧
      t = String.join texts ∧ t' = String.join texts' ∧
      (texts ≠ texts' → t ≠ t' ∨ BoundariesMoved texts texts') := by
  obtain ⟨texts, hreports, rfl⟩ := fingerprint_eq_ok_iff.1 h
  obtain ⟨texts', hreports', rfl⟩ := fingerprint_eq_ok_iff.1 h'
  have hlength : texts.length = texts'.length := by rw [hreports.length_eq, hreports'.length_eq]
  refine ⟨texts, texts', fun xs => ?_, fun xs => ?_, hlength, rfl, rfl, fun hne => ?_⟩
  · exact ⟨fun hxs => hxs.unique hreports, fun hxs => hxs ▸ hreports⟩
  · exact ⟨fun hxs => hxs.unique hreports', fun hxs => hxs ▸ hreports'⟩
  · by_cases hjoin : String.join texts = String.join texts'
    · exact Or.inr (boundariesMoved_of_join_eq hlength hne hjoin)
    · exact Or.inl hjoin

/-! ## Two seeds -/

/-- Two seeds that nothing reads. -/
def seedsGraph : Graph where
  nodes := [⟨"Seed", some ⟨"first"⟩, none, [], [], .empty⟩,
    ⟨"Seed", some ⟨"second"⟩, none, [], [], .empty⟩]
  links := []
  extra := .empty

/-- Values for two seeds. -/
def seedValues (first second : Int) : Params :=
  .ofList [("seed", Json.ofInt first), ("seed_2", Json.ofInt second)]

/-- Another value of the second seed shows in the fingerprint. -/
theorem seeds_fingerprint_separates :
    ∃ p, compile Builtin.registry.lookup seedsGraph .default = .ok p ∧
      ((Artifact.ofPlan "seeds" p).fingerprint (seedValues 1 23)).outcome = .ok "123" ∧
      ((Artifact.ofPlan "seeds" p).fingerprint (seedValues 1 24)).outcome = .ok "124" ∧
      ∃ texts texts', (Artifact.ofPlan "seeds" p).Reports (seedValues 1 23) texts ∧
        (Artifact.ofPlan "seeds" p).Reports (seedValues 1 24) texts' ∧
        "123" = String.join texts ∧ "124" = String.join texts' ∧
        (texts ≠ texts' → "123" ≠ "124" ∨ BoundariesMoved texts texts') := by
  obtain ⟨p, hp, h, h'⟩ : ∃ p, compile Builtin.registry.lookup seedsGraph .default = .ok p ∧
      ((Artifact.ofPlan "seeds" p).fingerprint (seedValues 1 23)).outcome = .ok "123" ∧
      ((Artifact.ofPlan "seeds" p).fingerprint (seedValues 1 24)).outcome = .ok "124" :=
    ⟨_, rfl, rfl, rfl⟩
  obtain ⟨texts, texts', hreports, hreports', -, ht, ht', hne⟩ :=
    fingerprint_separates_reports (.ofPlan "seeds" p) (seedValues 1 23) (seedValues 1 24) "123"
      "124" h h'
  exact ⟨p, hp, h, h', texts, texts', (hreports texts).2 rfl, (hreports' texts').2 rfl, ht, ht',
    hne⟩

/-- Other values of both seeds need not show in the fingerprint. -/
theorem seeds_fingerprints_collide :
    ∃ p, compile Builtin.registry.lookup seedsGraph .default = .ok p ∧
      (Artifact.ofPlan "seeds" p).Reports (seedValues 1 23) ["1", "23"] ∧
      (Artifact.ofPlan "seeds" p).Reports (seedValues 12 3) ["12", "3"] ∧
      ((Artifact.ofPlan "seeds" p).fingerprint (seedValues 1 23)).outcome = .ok "123" ∧
      ((Artifact.ofPlan "seeds" p).fingerprint (seedValues 12 3)).outcome = .ok "123" := by
  refine ⟨_, rfl, ⟨_, rfl, ?_⟩, ⟨_, rfl, ?_⟩, rfl, rfl⟩
  · exact List.Forall₂.cons rfl (List.Forall₂.cons rfl List.Forall₂.nil)
  · exact List.Forall₂.cons rfl (List.Forall₂.cons rfl List.Forall₂.nil)

end Artifact

end StepGraph
