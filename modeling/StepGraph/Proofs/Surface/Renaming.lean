import Mathlib.Data.List.Induction
import Mathlib.Data.List.Nodup
import Mathlib.Data.List.Perm.Basic
import StepGraph.Proofs.Surface.Reshaping

/-!
# What renaming inputs does

An entry of a rename mapping takes effect if its old name is on the surface that the entries before
it have left, and its new name is not. The input then moves to the end under the new name; any other
entry is passed over with a warning. So inputs are neither lost nor changed.

Entries may act on one input one after the other. `trail renames name` follows the input that is
called `name` at first through the renames that take effect: it says what the input is called after
them, and which of them was the last one that moved it, if any has. The inputs that were never moved
come first, as they stood, and after them the others by their last moves.
-/

namespace StepGraph.Surface

/-- The entry changes the surface that it meets. -/
def TakesEffect (t : Reshaped × (String × String)) : Prop := (renameEntry t.1 t.2).1 ≠ t.1.1

instance : DecidablePred TakesEffect := fun _ => inferInstanceAs (Decidable (_ ≠ _))

/-- The entries that take effect. -/
def effective (inputs : InputMap) (entries : List (String × String)) : List (String × String) :=
  ((turns renameEntry (inputs, []) entries).filter TakesEffect).map Prod.snd

/-- What an input is called, and the number of the last rename that has moved it. -/
structure Trail where
  name : String
  last : Option Nat

/-- One more rename, which moves the input with the old name. -/
def Trail.follow (t : Trail) (e : (String × String) × Nat) : Trail :=
  if t.name = e.1.1 then ⟨e.1.2, some e.2⟩ else t

/-- What renames make of the input that is called `name` at first. -/
def trail (renames : List (String × String)) (name : String) : Trail :=
  renames.zipIdx.foldl Trail.follow ⟨name, none⟩

/-- The entry under the name that its input has after renames. -/
def relabel (renames : List (String × String)) (e : String × Input) : String × Input :=
  ((trail renames e.1).name, e.2)

/-- The second entries are the first ones under their new names: those that no rename has moved, in
their order, and after them the others in the order of their last moves. -/
def InRenameOrder (renames : List (String × String)) (es es' : List (String × Input)) : Prop :=
  ∃ moved : List (String × Input), moved.Perm (es.filter fun e => (trail renames e.1).last ≠ none) ∧
    moved.Pairwise (fun e f => (trail renames e.1).last < (trail renames f.1).last) ∧
    es' = es.filter (fun e => (trail renames e.1).last = none) ++ moved.map (relabel renames)

/-- The surface after a renaming, and its warnings. -/
structure Renamed (inputs : InputMap) (mapping : OrderedMap String String) (r : Reshaped) :
    Prop where
  values : r.1.values.Perm inputs.values
  size : r.1.size = inputs.size
  effect : ∀ t ∈ turns renameEntry (inputs, []) mapping.entries,
    TakesEffect t ↔ t.2.1 ∈ t.1.1.keys ∧ t.2.2 ∉ t.1.1.keys
  /-- No entry but the one with the old name is touched. -/
  kept : ∀ t ∈ turns renameEntry (inputs, []) mapping.entries,
    ∀ e ∈ t.1.1.entries, e.1 ≠ t.2.1 → e ∈ (renameEntry t.1 t.2).1.entries
  warnings : r.2.length =
    ((turns renameEntry (inputs, []) mapping.entries).filter fun t => ¬ TakesEffect t).length
  order : InRenameOrder (effective inputs mapping.entries) inputs.entries r.1.entries

/-! ## One rename -/

variable {m : InputMap} {r : Reshaped} {e : String × String} {i : Input}

theorem entries_erase_insert {old new : String} (hnew : new ∉ m.keys) :
    ((m.erase old).insert new i).entries = m.entries.filter (fun e => e.1 ≠ old) ++ [(new, i)] := by
  have hfree : new ∉ (m.erase old).keys := fun h =>
    hnew (((Entries.erase_sublist old m.entries).map Prod.fst).mem h)
  rw [OrderedMap.entries_insert_of_not_mem hfree, OrderedMap.entries_erase,
    Entries.erase_eq_filter m.nodup_keys]

theorem renameEntry_of_free (hold : r.1.find? e.1 = some i) (hnew : e.2 ∉ r.1.keys) :
    renameEntry r e = ((r.1.erase e.1).insert e.2 i, r.2) := by
  have hcontains : r.1.contains e.2 ≠ true := mt OrderedMap.contains_iff_mem_keys.1 hnew
  simp only [renameEntry, hold, if_neg hcontains]

theorem renameEntry_passed (h : ¬ (e.1 ∈ r.1.keys ∧ e.2 ∉ r.1.keys)) :
    ∃ w, renameEntry r e = (r.1, r.2 ++ [w]) := by
  simp only [renameEntry]
  cases hold : r.1.find? e.1 with
  | none => exact ⟨_, rfl⟩
  | some i =>
      have hthere : e.1 ∈ r.1.keys := OrderedMap.mem_keys_iff.2 ⟨i, hold⟩
      have htaken : e.2 ∈ r.1.keys := by
        by_contra hnew
        exact h ⟨hthere, hnew⟩
      refine ⟨.nameTaken e.1 e.2, ?_⟩
      simp only [OrderedMap.contains_iff_mem_keys.2 htaken, if_true]

theorem takesEffect_iff : TakesEffect (r, e) ↔ e.1 ∈ r.1.keys ∧ e.2 ∉ r.1.keys := by
  constructor
  · intro heffect
    by_contra hpassed
    obtain ⟨w, hw⟩ := renameEntry_passed hpassed
    refine heffect ?_
    change (renameEntry r e).1 = r.1
    rw [hw]
  · rintro ⟨hold, hnew⟩ hsame
    obtain ⟨i, hi⟩ := OrderedMap.mem_keys_iff.1 hold
    rw [renameEntry_of_free hi hnew] at hsame
    refine hnew ?_
    rw [← hsame, OrderedMap.mem_keys_iff]
    exact ⟨i, by rw [OrderedMap.find?_insert, if_pos rfl]⟩

/-- An entry moves one input to the end, or it leaves the surface and adds a warning. -/
theorem renameEntry_cases (r : Reshaped) (e : String × String) :
    (TakesEffect (r, e) ∧ ∃ i, (e.1, i) ∈ r.1.entries ∧
      (renameEntry r e).1.entries = r.1.entries.filter (fun f => f.1 ≠ e.1) ++ [(e.2, i)] ∧
      (renameEntry r e).2 = r.2) ∨
    (¬ TakesEffect (r, e) ∧ ∃ w, renameEntry r e = (r.1, r.2 ++ [w])) := by
  by_cases heffect : TakesEffect (r, e)
  · obtain ⟨hold, hnew⟩ := takesEffect_iff.1 heffect
    obtain ⟨i, hi⟩ := OrderedMap.mem_keys_iff.1 hold
    rw [renameEntry_of_free hi hnew, entries_erase_insert hnew]
    exact .inl ⟨heffect, i, OrderedMap.find?_eq_some_iff.1 hi, rfl, rfl⟩
  · exact .inr ⟨heffect, renameEntry_passed (mt takesEffect_iff.2 heffect)⟩

/-! ## Trails -/

variable {renames : List (String × String)} {name : String}

theorem trail_append_singleton (renames : List (String × String)) (e : String × String)
    (name : String) :
    trail (renames ++ [e]) name = (trail renames name).follow (e, renames.length) := by
  simp [trail, List.zipIdx_append, List.foldl_append]

theorem trail_of_name_eq (h : (trail renames name).name = e.1) :
    trail (renames ++ [e]) name = ⟨e.2, some renames.length⟩ := by
  rw [trail_append_singleton, Trail.follow, if_pos h]

theorem trail_of_name_ne (h : (trail renames name).name ≠ e.1) :
    trail (renames ++ [e]) name = trail renames name := by
  rw [trail_append_singleton, Trail.follow, if_neg h]

theorem last_lt_length (renames : List (String × String)) (name : String) :
    (trail renames name).last < some renames.length := by
  induction renames using List.reverseRecOn with
  | nil => exact Option.none_lt_some
  | append_singleton renames e ih =>
      rw [List.length_append]
      by_cases hname : (trail renames name).name = e.1
      · rw [trail_of_name_eq hname]
        exact Option.some_lt_some.2 (Nat.lt_succ_self _)
      · rw [trail_of_name_ne hname]
        cases hlast : (trail renames name).last with
        | none => exact Option.none_lt_some
        | some k =>
            rw [hlast] at ih
            exact Option.some_lt_some.2 (Nat.lt_succ_of_lt (Option.some_lt_some.1 ih))

/-- An input that no rename has moved has its name. -/
theorem name_of_last_eq_none (h : (trail renames name).last = none) :
    (trail renames name).name = name := by
  induction renames using List.reverseRecOn with
  | nil => rfl
  | append_singleton renames e ih =>
      by_cases hname : (trail renames name).name = e.1
      · rw [trail_of_name_eq hname] at h
        exact absurd h (by simp)
      · rw [trail_of_name_ne hname] at h ⊢
        exact ih h

/-- One more rename moves the input with the old name, if no rename has moved it before. -/
theorem filter_unmoved_append (es : List (String × Input)) :
    es.filter (fun f => (trail (renames ++ [e]) f.1).last = none) =
      (es.filter fun f => (trail renames f.1).last = none).filter fun f => f.1 ≠ e.1 := by
  rw [List.filter_filter]
  refine List.filter_congr fun f _ => ?_
  rw [Bool.eq_iff_iff, Bool.and_eq_true, decide_eq_true_iff, decide_eq_true_iff,
    decide_eq_true_iff]
  by_cases hname : (trail renames f.1).name = e.1
  · rw [trail_of_name_eq hname]
    refine iff_of_false (by simp) ?_
    rintro ⟨hother, hlast⟩
    exact hother ((name_of_last_eq_none hlast).symm.trans hname)
  · rw [trail_of_name_ne hname]
    refine (and_iff_right_of_imp fun hlast => ?_).symm
    rwa [name_of_last_eq_none hlast] at hname

/-! ## The order of a surface -/

namespace InRenameOrder

variable {es es' : List (String × Input)}

/-- The entries are there, each under its new name. -/
theorem perm (h : InRenameOrder renames es es') : (es.map (relabel renames)).Perm es' := by
  obtain ⟨moved, hmoved, -, rfl⟩ := h
  have hstill : (es.filter fun e => (trail renames e.1).last = none).map (relabel renames) =
      es.filter fun e => (trail renames e.1).last = none := by
    have hsame : ∀ e ∈ es.filter fun e => (trail renames e.1).last = none,
        relabel renames e = e := by
      intro e he
      have hlast := of_decide_eq_true (List.mem_filter.1 he).2
      rw [relabel, name_of_last_eq_none hlast]
    exact (List.map_congr_left hsame).trans (List.map_id _)
  have hsplit := List.filter_append_perm (fun e => (trail renames e.1).last = none) es
  simp only [← decide_not] at hsplit
  refine (hsplit.symm.map (relabel renames)).trans ?_
  rw [List.map_append, hstill]
  exact (hmoved.symm.map _).append_left _

/-- No two inputs are called the same after renames. -/
theorem eq_of_name_eq (h : InRenameOrder renames es es') (hes' : (Entries.keys es').Nodup)
    {d f : String × Input} (hd : d ∈ es) (hf : f ∈ es)
    (hname : (trail renames f.1).name = (trail renames d.1).name) : f = d := by
  have hnames : (es.map fun e => (trail renames e.1).name).Nodup := by
    have hkeys := (h.perm.map Prod.fst).nodup_iff.2 hes'
    rwa [List.map_map] at hkeys
  exact List.inj_on_of_nodup_map hnames hf hd hname

/-- If only `d` is called by the old name, it is the input that has been moved now. -/
theorem perm_moved_append {moved : List (String × Input)} {d : String × Input} (hes : es.Nodup)
    (hmoved : moved.Perm (es.filter fun f => (trail renames f.1).last ≠ none)) (hd : d ∈ es)
    (honly : ∀ f ∈ es, (trail renames f.1).name = e.1 ↔ f = d) :
    ((moved.filter fun f => (trail renames f.1).name ≠ e.1) ++ [d]).Perm
      (es.filter fun f => (trail (renames ++ [e]) f.1).last ≠ none) := by
  have hname := (honly d hd).2 rfl
  have hnew : d ∉ moved.filter fun f => (trail renames f.1).name ≠ e.1 := fun hmem =>
    of_decide_eq_true (List.mem_filter.1 hmem).2 hname
  have hnodup : ((moved.filter fun f => (trail renames f.1).name ≠ e.1) ++ [d]).Nodup := by
    have hmovedNodup : moved.Nodup := hmoved.nodup_iff.2 (hes.filter _)
    refine List.nodup_append.2 ⟨hmovedNodup.filter _, List.nodup_singleton d, ?_⟩
    rintro f hf g hg rfl
    exact hnew (List.mem_singleton.1 hg ▸ hf)
  refine (List.perm_ext_iff_of_nodup hnodup (hes.filter _)).2 fun f => ?_
  rw [List.mem_append, List.mem_singleton, List.mem_filter, List.mem_filter, hmoved.mem_iff,
    List.mem_filter, decide_eq_true_iff, decide_eq_true_iff, decide_eq_true_iff]
  constructor
  · rintro (⟨⟨hf, hlast⟩, hne⟩ | rfl)
    · exact ⟨hf, by rwa [trail_of_name_ne hne]⟩
    · exact ⟨hd, by simp [trail_of_name_eq hname]⟩
  · rintro ⟨hf, hlast⟩
    by_cases hfname : (trail renames f.1).name = e.1
    · exact .inr ((honly f hf).1 hfname)
    · rw [trail_of_name_ne hfname] at hlast
      exact .inl ⟨⟨hf, hlast⟩, hfname⟩

/-- One input is moved to the end, under a new name. -/
theorem move (h : InRenameOrder renames es es') (hes : (Entries.keys es).Nodup)
    (hes' : (Entries.keys es').Nodup) (hold : (e.1, i) ∈ es') :
    InRenameOrder (renames ++ [e]) es (es'.filter (fun f => f.1 ≠ e.1) ++ [(e.2, i)]) := by
  obtain ⟨d, hd, hdold⟩ := List.mem_map.1 (h.perm.mem_iff.2 hold)
  obtain ⟨hname, hinput⟩ := Prod.mk.inj hdold
  have honly : ∀ f ∈ es, (trail renames f.1).name = e.1 ↔ f = d := by
    intro f hf
    constructor
    · exact fun hfname => h.eq_of_name_eq hes' hd hf (hfname.trans hname.symm)
    · rintro rfl
      exact hname
  obtain ⟨moved, hmoved, horder, rfl⟩ := h
  let others := moved.filter fun f => (trail renames f.1).name ≠ e.1
  have hstay : ∀ f ∈ others, trail (renames ++ [e]) f.1 = trail renames f.1 := fun f hf =>
    trail_of_name_ne (of_decide_eq_true (List.mem_filter.1 hf).2)
  refine ⟨others ++ [d], perm_moved_append (hes.of_map Prod.fst) hmoved hd honly, ?_, ?_⟩
  · refine List.pairwise_append.2 ⟨?_, List.pairwise_singleton _ d, ?_⟩
    · refine (horder.filter _).imp_of_mem fun hf hg hlt => ?_
      rwa [hstay _ hf, hstay _ hg]
    · intro f hf g hg
      rw [List.mem_singleton.1 hg, trail_of_name_eq hname, hstay f hf]
      exact last_lt_length renames f.1
  · have hothers : others.map (relabel (renames ++ [e])) =
        (moved.map (relabel renames)).filter fun f => f.1 ≠ e.1 := by
      rw [List.filter_map]
      refine List.map_congr_left fun f hf => ?_
      rw [relabel, relabel, hstay f hf]
    rw [List.filter_append, filter_unmoved_append, List.map_append, hothers, List.append_assoc,
      List.map_singleton, relabel, trail_of_name_eq hname, hinput]

end InRenameOrder

/-! ## One rename after the other -/

theorem effective_append_singleton (inputs : InputMap) (entries : List (String × String))
    (e : String × String) :
    effective inputs (entries ++ [e]) = effective inputs entries ++
      if TakesEffect (entries.foldl renameEntry (inputs, []), e) then [e] else [] := by
  rw [effective, turns_append, List.filter_append, List.map_append, effective, turns, turns]
  congr 1
  by_cases heffect : TakesEffect (entries.foldl renameEntry (inputs, []), e)
  · rw [if_pos heffect, List.filter_cons_of_pos (by simpa using heffect)]
    rfl
  · rw [if_neg heffect, List.filter_cons_of_neg (by simpa using heffect)]
    rfl

theorem inRenameOrder_renameEntries (inputs : InputMap) (entries : List (String × String)) :
    InRenameOrder (effective inputs entries) inputs.entries
      (entries.foldl renameEntry (inputs, [])).1.entries := by
  induction entries using List.reverseRecOn with
  | nil =>
      refine ⟨[], ?_, List.Pairwise.nil, ?_⟩
      · simp [effective, turns, trail]
      · simp [effective, turns, trail]
  | append_singleton entries e ih =>
      rw [List.foldl_append, List.foldl_cons, List.foldl_nil, effective_append_singleton]
      rcases renameEntry_cases (entries.foldl renameEntry (inputs, [])) e with
        ⟨heffect, i, hi, hentries, -⟩ | ⟨hpassed, w, hw⟩
      · rw [if_pos heffect, hentries]
        exact ih.move inputs.nodup_keys (OrderedMap.nodup_keys _) hi
      · rw [if_neg hpassed, List.append_nil, hw]
        exact ih

theorem length_warnings_renameEntries (r : Reshaped) (entries : List (String × String)) :
    (entries.foldl renameEntry r).2.length =
      r.2.length + ((turns renameEntry r entries).filter fun t => ¬ TakesEffect t).length := by
  induction entries generalizing r with
  | nil => rfl
  | cons e entries ih =>
      rw [List.foldl_cons, ih, turns]
      rcases renameEntry_cases r e with ⟨heffect, i, -, -, hsame⟩ | ⟨hpassed, w, hw⟩
      · rw [List.filter_cons_of_neg (by simpa using heffect), hsame]
      · rw [List.filter_cons_of_pos (by simpa using hpassed), hw, List.length_append,
          List.length_cons, List.length_cons, List.length_nil]
        omega

theorem mem_entries_renameEntry {f : String × Input} (hf : f ∈ r.1.entries) (hne : f.1 ≠ e.1) :
    f ∈ (renameEntry r e).1.entries := by
  rcases renameEntry_cases r e with ⟨-, i, -, hentries, -⟩ | ⟨-, w, hw⟩
  · rw [hentries]
    exact List.mem_append_left _ (List.mem_filter.2 ⟨hf, decide_eq_true hne⟩)
  · rwa [hw]

/-- Whatever the mapping says, the inputs stay what they are; what is renamed comes last, in the
order of the last renames, and what is not renamed leaves a warning. -/
theorem rename_renamed (inputs : InputMap) (mapping : OrderedMap String String) :
    Renamed inputs mapping (rename inputs mapping) := by
  have horder := inRenameOrder_renameEntries inputs mapping.entries
  have hvalues := horder.perm.map Prod.snd
  rw [List.map_map] at hvalues
  constructor
  case values => exact hvalues.symm
  case size =>
    have hlength := horder.perm.length_eq
    rw [List.length_map] at hlength
    exact hlength.symm
  case effect => exact fun t _ => takesEffect_iff
  case kept => exact fun t _ e he hne => mem_entries_renameEntry he hne
  case warnings =>
    rw [rename, length_warnings_renameEntries]
    exact Nat.zero_add _
  case order => exact horder

/-- Two inputs swap their names by way of a third one. -/
example (i j : Input) :
    (rename (.ofList [("a", i), ("b", j)]) (.ofList [("a", "c"), ("b", "a"), ("c", "b")])).1 =
      .ofList [("a", j), ("b", i)] := by rfl

end StepGraph.Surface
