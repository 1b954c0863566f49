import Mathlib.Algebra.GroupWithZero.Nat
import Mathlib.Data.List.Forall2
import Mathlib.Data.List.Nodup
import StepGraph.Proofs.Node.Arrangement
import StepGraph.Proofs.Surface.Reshaping

/-!
# What merging inputs does

An entry of a merge mapping names a target and its sources. It meets the surface that the entries
before it have left, where its target may have been merged away, or a source of it, and a source may
be named twice. Each source of a target that is there either gives its registers to the target and
is gone, or is passed over with one warning; an entry whose target is missing has one warning for
all its sources. So of inputs removed and warnings together there are as many as the entries ask
for.

`Reduces` says what a part of a merge does, and of parts that follow each other it holds with their
numbers added. What is left of a surface are inputs of it, in their order, with their own registers
first.
-/

namespace StepGraph.Surface

/-- The first entry is the second one with further registers after its own. -/
def Extends (e' e : String × Input) : Prop :=
  e'.1 = e.1 ∧ ∃ rs, e'.2 = { e.2 with registers := e.2.registers ++ rs }

instance : Std.Refl Extends := ⟨fun e => ⟨rfl, [], by rw [List.append_nil]⟩⟩

instance : IsTrans (String × Input) Extends where
  trans := by
    rintro e'' e' e ⟨hname', rs', hinput'⟩ ⟨hname, rs, hinput⟩
    refine ⟨hname'.trans hname, rs ++ rs', ?_⟩
    rw [hinput', hinput, List.append_assoc]

/-- A turn of an entry removes inputs of this name and type: sources of the target it finds, which
has their type. -/
def Absorbs (t : Reshaped × (String × List String)) (name type : String) : Prop :=
  name ∈ t.2.2 ∧ name ≠ t.2.1 ∧ ∃ i, t.1.1.find? t.2.1 = some i ∧ i.typeTag = type

/-- How many merges a turn of an entry is about: one for each source, or one if the target is
missing. -/
def asked (t : Reshaped × (String × List String)) : Nat :=
  if t.2.1 ∈ t.1.1.keys then t.2.2.length else 1

/-- The surface after a merge, and its warnings. -/
structure Merged (inputs : InputMap) (mapping : OrderedMap String (List String)) (r : Reshaped) :
    Prop where
  registers : (registers r.1).Perm (registers inputs)
  survivors : List.SublistForall₂ Extends r.1.entries inputs.entries
  absorbed : ∀ e ∈ inputs.entries, e.1 ∉ r.1.keys →
    ∃ t ∈ turns mergeEntry (inputs, []) mapping.entries, Absorbs t e.1 e.2.typeTag
  targets : ∀ t ∈ turns mergeEntry (inputs, []) mapping.entries,
    t.2.1 ∈ t.1.1.keys → t.2.1 ∈ (mergeEntry t.1 t.2).1.keys
  count : (inputs.keys.filter fun name => name ∉ r.1.keys).length + r.2.length =
    ((turns mergeEntry (inputs, []) mapping.entries).map asked).sum

/-! ## Parts of a merge -/

/-- From one surface to the other `n` merges were asked for, and the inputs that were removed are
such as `P` allows. -/
structure Reduces (P : String → String → Prop) (n : Nat) (r r' : Reshaped) : Prop where
  survivors : List.SublistForall₂ Extends r'.1.entries r.1.entries
  absorbed : ∀ e ∈ r.1.entries, e.1 ∉ r'.1.keys → P e.1 e.2.typeTag
  count : r.1.size + r'.2.length = r'.1.size + r.2.length + n

variable {P Q : String → String → Prop} {r r' r'' : Reshaped} {n k : Nat}

theorem exists_of_mem_sublistForall₂ {α β : Type*} {R : α → β → Prop} {as : List α} {bs : List β}
    (h : List.SublistForall₂ R as bs) {a : α} (ha : a ∈ as) : ∃ b ∈ bs, R a b := by
  obtain ⟨cs, hcs, hsub⟩ := List.sublistForall₂_iff.1 h
  obtain ⟨c, hc, hac⟩ := Plan.exists_of_mem_forall₂ hcs ha
  exact ⟨c, hsub.mem hc, hac⟩

theorem Reduces.refl (r : Reshaped) : Reduces P 0 r r := by
  refine ⟨(List.Sublist.refl _).sublistForall₂, ?_, rfl⟩
  exact fun e he hgone => absurd (List.mem_map_of_mem he) hgone

theorem Reduces.imp (h : Reduces P n r r') (hPQ : ∀ name type, P name type → Q name type) :
    Reduces Q n r r' :=
  ⟨h.survivors, fun e he hgone => hPQ _ _ (h.absorbed e he hgone), h.count⟩

/-- What is still there has the type it had. -/
theorem Reduces.typeTag_eq (h : Reduces P n r r') {e e' : String × Input} (he : e ∈ r.1.entries)
    (he' : e' ∈ r'.1.entries) (hname : e'.1 = e.1) : e'.2.typeTag = e.2.typeTag := by
  obtain ⟨d, hd, hdname, rs, hinput⟩ := exists_of_mem_sublistForall₂ h.survivors he'
  obtain rfl : d = e := List.inj_on_of_nodup_map r.1.nodup_keys hd he (hdname.symm.trans hname)
  rw [hinput]
  rfl

theorem Reduces.trans (h : Reduces P n r r') (h' : Reduces P k r' r'') :
    Reduces P (n + k) r r'' := by
  constructor
  case survivors => exact IsTrans.trans _ _ _ h'.survivors h.survivors
  case absorbed =>
    intro e he hgone
    by_cases hthere : e.1 ∈ r'.1.keys
    · obtain ⟨e', he', hname⟩ := List.mem_map.1 hthere
      have habsorbed := h'.absorbed e' he' (hname ▸ hgone)
      rwa [hname, h.typeTag_eq he he' hname] at habsorbed
    · exact h.absorbed e he hthere
  case count =>
    have hcount := h.count
    have hcount' := h'.count
    omega

theorem sublistForall₂_update {k : String} {rs : List Register} (es : List (String × Input)) :
    List.SublistForall₂ Extends
      (Entries.update k (fun i => { i with registers := i.registers ++ rs }) es) es := by
  induction es with
  | nil => exact .nil
  | cons e es ih =>
      rw [Entries.update_cons]
      split
      · exact .cons ⟨rfl, rs, rfl⟩ ((List.Sublist.refl es).sublistForall₂)
      · exact .cons (refl e) ih

/-- A merge that is passed over leaves a warning. -/
theorem Reduces.passed (r : Reshaped) (w : Warning) : Reduces P 1 r (r.1, r.2 ++ [w]) := by
  have hnothing := @Reduces.refl P r
  refine ⟨hnothing.survivors, hnothing.absorbed, ?_⟩
  rw [List.length_append]
  rfl

/-- A source is merged into a target that is there, or passed over. -/
theorem reduces_mergeSource {target type : String} (source : String)
    (h : ∃ i, r.1.find? target = some i ∧ i.typeTag = type) :
    Reduces (fun name t => name = source ∧ name ≠ target ∧ t = type) 1 r
      (mergeSource target type r source) := by
  obtain ⟨inputs, warnings⟩ := r
  simp only [mergeSource]
  split
  · exact Reduces.passed _ _
  next hne =>
  split
  · exact Reduces.passed _ _
  next merged hmerged =>
  split
  · exact Reduces.passed _ _
  next htype =>
  obtain ⟨before, after, hentries, herase, -⟩ := Entries.exists_of_find?_eq_some hmerged
  constructor
  case survivors =>
    have hsub := Entries.erase_sublist source inputs.entries
    exact IsTrans.trans _ _ _ (sublistForall₂_update _) hsub.sublistForall₂
  case absorbed =>
    intro e he hgone
    have hsource : e.1 = source := by
      by_contra hother
      refine hgone ?_
      rw [OrderedMap.keys, OrderedMap.entries_update, Entries.keys_update,
        OrderedMap.entries_erase, Entries.erase_eq_filter inputs.nodup_keys]
      exact List.mem_map_of_mem (List.mem_filter.2 ⟨he, decide_eq_true hother⟩)
    have hinput : inputs.find? e.1 = some e.2 := OrderedMap.find?_eq_some_iff.2 he
    rw [hsource, hmerged] at hinput
    refine ⟨hsource, hsource ▸ hne, ?_⟩
    rw [← Option.some.inj hinput]
    exact Decidable.not_not.1 htype
  case count =>
    simp only [OrderedMap.size, OrderedMap.entries_update, OrderedMap.entries_erase,
      Entries.length_update, herase]
    rw [hentries, List.length_append, List.length_append, List.length_cons]
    omega

/-- All sources of a target that is there. -/
theorem reduces_mergeSources {target type : String} (sources : List String)
    (h : ∃ i, r.1.find? target = some i ∧ i.typeTag = type) :
    Reduces (fun name t => name ∈ sources ∧ name ≠ target ∧ t = type) sources.length r
      (sources.foldl (mergeSource target type) r) := by
  induction sources generalizing r with
  | nil => exact Reduces.refl r
  | cons source sources ih =>
      obtain ⟨-, hthere⟩ := @moves_mergeSource target type source r h
      have hfirst : Reduces (fun name t => name ∈ source :: sources ∧ name ≠ target ∧ t = type) 1 r
          (mergeSource target type r source) := by
        refine (reduces_mergeSource source h).imp ?_
        rintro name t ⟨rfl, hother⟩
        exact ⟨List.mem_cons_self .., hother⟩
      have hrest : Reduces (fun name t => name ∈ source :: sources ∧ name ≠ target ∧ t = type)
          sources.length (mergeSource target type r source)
          (sources.foldl (mergeSource target type) (mergeSource target type r source)) := by
        refine (ih hthere).imp ?_
        rintro name t ⟨hmem, hother⟩
        exact ⟨List.mem_cons_of_mem source hmem, hother⟩
      rw [List.foldl_cons, List.length_cons, Nat.add_comm]
      exact hfirst.trans hrest

theorem reduces_mergeEntry (r : Reshaped) (entry : String × List String) :
    Reduces (Absorbs (r, entry)) (asked (r, entry)) r (mergeEntry r entry) := by
  rw [mergeEntry]
  cases htarget : r.1.find? entry.1 with
  | none =>
      have hasked : asked (r, entry) = 1 := if_neg (OrderedMap.find?_eq_none_iff.1 htarget)
      rw [hasked]
      exact Reduces.passed r _
  | some i =>
      have hasked : asked (r, entry) = entry.2.length :=
        if_pos (OrderedMap.mem_keys_iff.2 ⟨i, htarget⟩)
      rw [hasked]
      refine (reduces_mergeSources entry.2 ⟨i, htarget, rfl⟩).imp ?_
      rintro name type ⟨hmem, hother, rfl⟩
      exact ⟨hmem, hother, i, htarget, rfl⟩

/-- A target is not removed at its own turn. -/
theorem target_mem_keys_mergeEntry {entry : String × List String} (h : entry.1 ∈ r.1.keys) :
    entry.1 ∈ (mergeEntry r entry).1.keys := by
  by_contra hgone
  obtain ⟨e, he, hname⟩ := List.mem_map.1 h
  obtain ⟨-, hother, -⟩ := (reduces_mergeEntry r entry).absorbed e he (hname ▸ hgone)
  exact hother hname

/-- One entry after the other. -/
theorem reduces_mergeEntries (r : Reshaped) (entries : List (String × List String)) :
    Reduces (fun name type => ∃ t ∈ turns mergeEntry r entries, Absorbs t name type)
      ((turns mergeEntry r entries).map asked).sum r (entries.foldl mergeEntry r) := by
  induction entries generalizing r with
  | nil => exact Reduces.refl r
  | cons entry entries ih =>
      rw [turns, List.map_cons, List.sum_cons, List.foldl_cons]
      refine Reduces.trans ((reduces_mergeEntry r entry).imp ?_)
        ((ih (mergeEntry r entry)).imp ?_)
      · exact fun name type habsorbs => ⟨_, List.mem_cons_self .., habsorbs⟩
      · rintro name type ⟨t, ht, habsorbs⟩
        exact ⟨t, List.mem_cons_of_mem _ ht, habsorbs⟩

/-! ## The whole merge -/

/-- What is removed is what is missing afterwards. -/
theorem Reduces.length_filter_not_mem (h : Reduces P n r r') :
    (r.1.keys.filter fun name => name ∉ r'.1.keys).length + r'.1.size = r.1.size := by
  have hkept : (r.1.keys.filter fun name => name ∈ r'.1.keys).Perm r'.1.keys := by
    refine (List.perm_ext_iff_of_nodup (r.1.nodup_keys.filter _) r'.1.nodup_keys).2 fun name => ?_
    rw [List.mem_filter, decide_eq_true_iff]
    refine and_iff_right_of_imp fun hname => ?_
    obtain ⟨e', he', rfl⟩ := List.mem_map.1 hname
    obtain ⟨e, he, hsame, -⟩ := exists_of_mem_sublistForall₂ h.survivors he'
    exact hsame ▸ List.mem_map_of_mem he
  have hsplit := r.1.keys.length_eq_length_filter_add fun name => name ∈ r'.1.keys
  have hsize : r'.1.keys.length = r'.1.size := List.length_map _
  have hsize' : r.1.keys.length = r.1.size := List.length_map _
  simp only [← decide_not] at hsplit
  rw [hkept.length_eq] at hsplit
  omega

/-- Whatever the mapping says, no register is lost, what is left is in order, and every merge that
was asked for was made or passed over with a warning. -/
theorem merge_merged (inputs : InputMap) (mapping : OrderedMap String (List String)) :
    Merged inputs mapping (merge inputs mapping) := by
  have hreduces := reduces_mergeEntries (inputs, []) mapping.entries
  constructor
  case registers => exact (moves_merge inputs mapping).keeps.perm
  case survivors => exact hreduces.survivors
  case absorbed => exact hreduces.absorbed
  case targets => exact fun t _ => target_mem_keys_mergeEntry
  case count =>
    have hremoved : (inputs.keys.filter fun name => name ∉ (merge inputs mapping).1.keys).length +
        (merge inputs mapping).1.size = inputs.size := hreduces.length_filter_not_mem
    have hcount : inputs.size + (merge inputs mapping).2.length = (merge inputs mapping).1.size +
        0 + ((turns mergeEntry (inputs, []) mapping.entries).map asked).sum := hreduces.count
    omega

/-- What the first entry has merged is missing afterwards, as a source and as a target. -/
example (r s : Register) :
    merge (.ofList [("a", .make "a" .required (.ofType "INT") r),
        ("b", .make "b" .required (.ofType "INT") s)]) (.ofList [("a", ["b", "b"]), ("b", ["a"])]) =
      (.ofList [("a", ⟨"a", .required, .ofType "INT", [r, s]⟩)],
        [.sourceMissing "b", .targetMissing "b"]) := by rfl

end StepGraph.Surface
