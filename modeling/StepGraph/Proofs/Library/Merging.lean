import Mathlib.Data.List.Induction
import StepGraph.Library.Basic

/-!
# Records are merged by name

The records of several files become one map. `MergedByName` says which: the names stand in the order
in which they first appear, along the files and the entries of each file, and each has the record of
the last file that has the name. So a record that replaces an older one stands where the older one
stood.
-/

namespace StepGraph

universe u v

namespace OrderedMap

variable {κ : Type u} {α : Type v} [DecidableEq κ]

/-- In the map a list of pairs describes, the keys are in the order of their first appearance. -/
theorem keys_ofList (es : List (κ × α)) : (ofList es).keys = (Entries.keys es).eraseDups := by
  induction es using List.reverseRecOn with
  | nil => rfl
  | append_singleton es e ih =>
      have hmap : ofList (es ++ [e]) = (ofList es).insert e.1 e.2 := insertAll_append _ es [e]
      have hkeys : Entries.keys (es ++ [e]) = Entries.keys es ++ [e.1] := List.map_append
      rw [keys] at ih
      rw [hmap, keys, entries_insert, Entries.keys_insert, ih, hkeys,
        Entries.eraseDups_append_singleton]
      simp only [List.mem_eraseDups]

end OrderedMap

namespace Library

/-- The records of the files are merged: a name stands where it first appears, and has the record of
the last file that has it. -/
structure MergedByName (files : List (List (String × Json))) (rs : Records) : Prop where
  names : rs.keys = (Entries.keys files.flatten).eraseDups
  latest : ∀ before fields after name, files = before ++ fields :: after →
    name ∈ Entries.keys fields → (∀ later ∈ after, name ∉ Entries.keys later) →
      rs.find? name = Entries.find? name fields

variable {files : List (List (String × Json))} {rs : Records}
  {earlier later : List (String × Json)} {name : String} {old : Json}

/-- Inserting the records of one file after the other merges them. -/
theorem mergedByName_ofList (h : ∀ fields ∈ files, (Entries.keys fields).Nodup) :
    MergedByName files (.ofList files.flatten) := by
  refine ⟨OrderedMap.keys_ofList _, ?_⟩
  rintro before fields after name rfl hname hafter
  have hlater : name ∉ Entries.keys after.flatten := by
    intro hmem
    obtain ⟨e, he, rfl⟩ := List.mem_map.1 hmem
    obtain ⟨later, hlater, he⟩ := List.mem_flatten.1 he
    exact hafter later hlater (List.mem_map_of_mem he)
  have hfields : (Entries.keys fields).Nodup :=
    h fields (List.mem_append_right before (List.mem_cons_self ..))
  obtain ⟨record, hrecord⟩ :=
    Option.ne_none_iff_exists'.1 fun hnone => Entries.find?_eq_none_iff.1 hnone hname
  rw [List.flatten_append, List.flatten_cons, OrderedMap.ofList, OrderedMap.insertAll_append,
    OrderedMap.insertAll_append, OrderedMap.find?_insertAll_of_not_mem _ hlater,
    OrderedMap.find?_insertAll_of_nodup hfields, hrecord]
  rfl

/-- A name stands behind those that have appeared before it. -/
theorem MergedByName.exists_split (h : MergedByName files rs)
    (hfiles : files.flatten = earlier ++ (name, old) :: later)
    (hnew : name ∉ Entries.keys earlier) :
    ∃ before record after, rs.entries = before ++ (name, record) :: after ∧
      Entries.keys before = (Entries.keys earlier).eraseDups := by
  have hkeys : Entries.keys files.flatten =
      Entries.keys earlier ++ name :: Entries.keys later := by
    rw [hfiles, Entries.keys, List.map_append]
    rfl
  have hrest : ∃ others, ((name :: Entries.keys later).removeAll (Entries.keys earlier)).eraseDups =
      name :: others := by
    rw [List.removeAll, List.filter_cons_of_pos (by simpa using hnew), List.eraseDups_cons]
    exact ⟨_, rfl⟩
  obtain ⟨others, hothers⟩ := hrest
  have hnames := h.names
  rw [hkeys, List.eraseDups_append, hothers, OrderedMap.keys, Entries.keys,
    List.map_eq_append_iff] at hnames
  obtain ⟨before, rest, hentries, hbefore, hrest⟩ := hnames
  obtain ⟨⟨name', record⟩, after, rfl, rfl, -⟩ := List.map_eq_cons_iff.1 hrest
  exact ⟨before, record, after, hentries, hbefore⟩

end Library

end StepGraph
