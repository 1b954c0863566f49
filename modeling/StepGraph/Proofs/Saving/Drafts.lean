import StepGraph.Json.Draft

/-!
# Values as drafts

The draft of a value without repeated keys has that value, and whatever value a draft has, it
repeats no key. So reading a value from its own draft gives it back, and all values that are read
can be read again.
-/

namespace StepGraph.Json

variable {v : Json} {vs : List Json} {fs : List (String × Json)}

/-! ## Values at every depth -/

theorem wellFormedItems_iff : WellFormedItems vs ↔ ∀ v ∈ vs, v.WellFormed := by
  induction vs with
  | nil => simp [WellFormedItems]
  | cons v vs ih => rw [WellFormedItems, List.forall_mem_cons, ih]

theorem wellFormedFields_iff : WellFormedFields fs ↔ ∀ f ∈ fs, f.2.WellFormed := by
  induction fs with
  | nil => simp [WellFormedFields]
  | cons f fs ih => rw [WellFormedFields, List.forall_mem_cons, ih]

theorem wellFormed_array_iff : (array vs).WellFormed ↔ ∀ v ∈ vs, v.WellFormed := by
  rw [WellFormed, wellFormedItems_iff]

theorem wellFormed_object_iff :
    (object fs).WellFormed ↔ (Entries.keys fs).Nodup ∧ ∀ f ∈ fs, f.2.WellFormed := by
  rw [WellFormed, wellFormedFields_iff]

theorem wellFormed_ofInt (n : Int) : (ofInt n).WellFormed := trivial

theorem wellFormedFields_insert (h : WellFormedFields fs) (k : String) (hv : v.WellFormed) :
    WellFormedFields (Entries.insert k v fs) := by
  induction fs with
  | nil => exact ⟨hv, trivial⟩
  | cons f fs ih =>
      rw [Entries.insert_cons]
      split
      · exact ⟨hv, h.2⟩
      · exact ⟨h.1, ih h.2⟩

theorem draftFields_append (fs gs : List (String × Json)) :
    draftFields (fs ++ gs) = draftFields fs ++ draftFields gs := by
  induction fs with
  | nil => rfl
  | cons f fs ih =>
      obtain ⟨k, v⟩ := f
      rw [List.cons_append, draftFields, ih]
      rfl

namespace Draft

/-! ## The draft of a value has the value -/

mutual

theorem value?_draft : ∀ {v : Json}, v.WellFormed → v.draft.value? = some v
  | .null, _ => rfl
  | .bool _, _ => rfl
  | .number _, _ => rfl
  | .string _, _ => rfl
  | .array items, h => by
      rw [draft, value?, valueItems?_draftItems h]
      rfl
  | .object fields, h => by
      rw [draft, value?, valueFields?_draftFields [] h.1 h.2]
      rfl

theorem valueItems?_draftItems : ∀ {vs : List Json}, WellFormedItems vs →
    valueItems? (draftItems vs) = some vs
  | [], _ => rfl
  | v :: vs, h => by rw [draftItems, valueItems?, value?_draft h.1, valueItems?_draftItems h.2]

/-- Fields with new keys go behind those that were read before. -/
theorem valueFields?_draftFields : ∀ {fs : List (String × Json)} (seen : List (String × Json)),
    (Entries.keys (seen ++ fs)).Nodup → WellFormedFields fs →
    valueFields? (draftFields fs) seen = some (seen ++ fs)
  | [], seen, _, _ => by rw [draftFields, valueFields?, List.append_nil]
  | (k, v) :: fs, seen, hnodup, h => by
      have hnew : k ∉ Entries.keys seen := by
        rw [Entries.keys, List.map_append] at hnodup
        intro hmem
        exact (List.nodup_append.1 hnodup).2.2 k hmem k (List.mem_cons_self ..) rfl
      have hseen : seen ++ (k, v) :: fs = seen ++ [(k, v)] ++ fs := by simp
      rw [hseen] at hnodup ⊢
      rw [draftFields, valueFields?, value?_draft h.1]
      simp only [Entries.insert_of_not_mem hnew]
      exact valueFields?_draftFields (seen ++ [(k, v)]) hnodup h.2

end

/-! ## What drafts have for values -/

theorem value?_array_eq_some {items : List Draft} {closed : Bool}
    (h : (array items closed).value? = some v) :
    ∃ vs, valueItems? items = some vs ∧ closed = true ∧ v = .array vs := by
  rw [value?] at h
  split at h
  · next vs hvs =>
    split at h
    · next hclosed => exact ⟨vs, hvs, hclosed, (Option.some.inj h).symm⟩
    · cases h
  · cases h

theorem value?_object_eq_some {fields : List (String × Draft)} {closed : Bool}
    (h : (object fields closed).value? = some v) :
    ∃ fs, valueFields? fields [] = some fs ∧ closed = true ∧ v = .object fs := by
  rw [value?] at h
  split at h
  · next fs hfs =>
    split at h
    · next hclosed => exact ⟨fs, hfs, hclosed, (Option.some.inj h).symm⟩
    · cases h
  · cases h

mutual

theorem wellFormed_of_value? : ∀ {d : Draft} {v : Json}, d.value? = some v → v.WellFormed
  | .null, _, h | .bool _, _, h | .number _, _, h | .string _, _, h => by
      cases h
      trivial
  | .array items closed, v, h => by
      obtain ⟨vs, hvs, -, rfl⟩ := value?_array_eq_some h
      exact wellFormedItems_of_valueItems? hvs
  | .object fields closed, v, h => by
      obtain ⟨fs, hfs, -, rfl⟩ := value?_object_eq_some h
      exact wellFormed_of_valueFields? hfs List.nodup_nil trivial

theorem wellFormedItems_of_valueItems? : ∀ {ds : List Draft} {vs : List Json},
    valueItems? ds = some vs → WellFormedItems vs
  | [], _, h => by
      cases h
      trivial
  | d :: ds, vs, h => by
      rw [valueItems?] at h
      split at h
      · next v vs hv hvs =>
        cases h
        exact ⟨wellFormed_of_value? hv, wellFormedItems_of_valueItems? hvs⟩
      · cases h

theorem wellFormed_of_valueFields? : ∀ {ds : List (String × Draft)}
    {seen fs : List (String × Json)}, valueFields? ds seen = some fs →
    (Entries.keys seen).Nodup → WellFormedFields seen →
    (Entries.keys fs).Nodup ∧ WellFormedFields fs
  | [], _, _, h, hnodup, hseen => by
      cases h
      exact ⟨hnodup, hseen⟩
  | (k, d) :: ds, seen, fs, h, hnodup, hseen => by
      rw [valueFields?] at h
      split at h
      · next v hv =>
        refine wellFormed_of_valueFields? h (Entries.nodup_keys_insert hnodup k v) ?_
        exact wellFormedFields_insert hseen k (wellFormed_of_value? hv)
      · cases h

end

/-! ## Drafts without repeated keys -/

mutual

/-- No object in the draft repeats a key. -/
def distinct : Draft → Bool
  | .array items _ => distinctItems items
  | .object fields _ => decide (Entries.keys fields).Nodup && distinctFields fields
  | .null | .bool _ | .number _ | .string _ | .cut => true

def distinctItems : List Draft → Bool
  | [] => true
  | d :: ds => distinct d && distinctItems ds

def distinctFields : List (String × Draft) → Bool
  | [] => true
  | (_, d) :: ds => distinct d && distinctFields ds

end

mutual

/-- Nothing gets lost between a draft that repeats no key and its value. -/
theorem eq_draft_of_value? : ∀ {d : Draft} {v : Json}, d.value? = some v → d.distinct →
    d = v.draft
  | .null, _, h, _ | .bool _, _, h, _ | .number _, _, h, _ | .string _, _, h, _ => by
      cases h
      rfl
  | .array items closed, v, h, hd => by
      obtain ⟨vs, hvs, rfl, rfl⟩ := value?_array_eq_some h
      rw [draft, eq_draftItems_of_valueItems? hvs hd]
  | .object fields closed, v, h, hd => by
      obtain ⟨fs, hfs, rfl, rfl⟩ := value?_object_eq_some h
      obtain ⟨hnodup, hfields⟩ := Bool.and_eq_true_iff.1 hd
      obtain ⟨gs, rfl, hgs⟩ := eq_draftFields_of_valueFields? hfs hfields (of_decide_eq_true hnodup)
      rw [draft, hgs]

theorem eq_draftItems_of_valueItems? : ∀ {ds : List Draft} {vs : List Json},
    valueItems? ds = some vs → distinctItems ds → ds = draftItems vs
  | [], _, h, _ => by
      cases h
      rfl
  | d :: ds, vs, h, hdistinct => by
      obtain ⟨hd, hds⟩ := Bool.and_eq_true_iff.1 hdistinct
      rw [valueItems?] at h
      split at h
      · next v vs hv hvs =>
        cases h
        rw [draftItems, ← eq_draft_of_value? hv hd, ← eq_draftItems_of_valueItems? hvs hds]
      · cases h

/-- Fields with new keys are added behind those that were read before. -/
theorem eq_draftFields_of_valueFields? : ∀ {ds : List (String × Draft)}
    {seen fs : List (String × Json)}, valueFields? ds seen = some fs → distinctFields ds →
    (Entries.keys seen ++ Entries.keys ds).Nodup → ∃ gs, fs = seen ++ gs ∧ ds = draftFields gs
  | [], seen, _, h, _, _ => by
      cases h
      exact ⟨[], (List.append_nil seen).symm, rfl⟩
  | (k, d) :: ds, seen, fs, h, hdistinct, hnodup => by
      obtain ⟨hd, hds⟩ := Bool.and_eq_true_iff.1 hdistinct
      rw [valueFields?] at h
      split at h
      · next v hv =>
        have hnew : k ∉ Entries.keys seen := fun hk =>
          (List.nodup_append.1 hnodup).2.2 k hk k (List.mem_cons_self ..) rfl
        rw [Entries.insert_of_not_mem hnew] at h
        have hkeys : (Entries.keys (seen ++ [(k, v)]) ++ Entries.keys ds).Nodup := by
          simpa [Entries.keys] using hnodup
        obtain ⟨gs, rfl, rfl⟩ := eq_draftFields_of_valueFields? h hds hkeys
        refine ⟨(k, v) :: gs, by simp, ?_⟩
        rw [draftFields, ← eq_draft_of_value? hv hd]
      · cases h

end

end Draft

end StepGraph.Json
