import StepGraph.Library.Basic
import StepGraph.Proofs.Library.Merging
import StepGraph.Proofs.Library.Registry

/-!
# Which files are sources of records

A file of a directory is a *source* if its extension is `yaml` or `yml`, it can be read, it is YAML
and it holds a mapping. The sources of a directory with their records, in the order of their names,
determine the records of the directory: no other file matters, and neither does the order in which
the directory is listed.
-/

namespace StepGraph

/-! ## The names of files with records -/

/-- Where the characters before the first dot are not all, the dot follows them. -/
theorem Path.exists_of_length_takeWhile_lt {cs : List Char}
    (h : (cs.takeWhile (· != '.')).length < cs.length) :
    ∃ rest, cs = cs.takeWhile (· != '.') ++ '.' :: rest := by
  have hsplit := List.takeWhile_append_dropWhile (p := (· != '.')) (l := cs)
  have hhead := List.head?_dropWhile_not (· != '.') cs
  cases hrest : cs.dropWhile (· != '.') with
  | nil =>
      rw [hrest, List.append_nil] at hsplit
      rw [hsplit] at h
      exact absurd h (Nat.lt_irrefl _)
  | cons c rest =>
      rw [hrest] at hsplit hhead
      obtain rfl : c = '.' := by simpa using hhead
      exact ⟨rest, hsplit.symm⟩

/-- The extension stands behind the last dot, and something stands before that dot. -/
theorem Path.extension?_eq_some_iff {name extension : String} :
    extension? name = some extension ↔
      '.' ∉ extension.toList ∧ ∃ stem ≠ "", name = stem ++ "." ++ extension := by
  rw [extension?]
  constructor
  · intro h
    split at h
    · next hlt =>
      obtain rfl := Option.some.inj h
      have hdot : '.' ∉ name.toList.reverse.takeWhile (· != '.') := fun hmem => by
        simpa using List.all_eq_true.1 (List.all_takeWhile (p := (· != '.'))) '.' hmem
      have hshort : (name.toList.reverse.takeWhile (· != '.')).length + 1 <
          name.toList.reverse.length := by
        rwa [List.length_reverse]
      obtain ⟨rest, hrest⟩ := exists_of_length_takeWhile_lt (Nat.lt_of_succ_lt hshort)
      refine ⟨by simpa using hdot, String.ofList rest.reverse, ?_, ?_⟩
      · intro hempty
        have hnil : rest = [] := by simpa using hempty
        have hlength := congrArg List.length hrest
        rw [hnil, List.length_append, List.length_singleton] at hlength
        exact absurd hshort (Nat.not_lt.2 hlength.le)
      · have hname := congrArg List.reverse hrest
        exact String.toList_injective (by simpa using hname)
    · cases h
  · rintro ⟨hdot, stem, hstem, rfl⟩
    have hreverse : (stem ++ "." ++ extension).toList.reverse =
        extension.toList.reverse ++ '.' :: stem.toList.reverse := by
      simp [String.toList_append]
    have hafter : (stem ++ "." ++ extension).toList.reverse.takeWhile (· != '.') =
        extension.toList.reverse := by
      rw [hreverse, List.takeWhile_append_of_pos, List.takeWhile_cons_of_neg, List.append_nil]
      · simp
      · intro c hc
        simpa using fun h : c = '.' => hdot (h ▸ List.mem_reverse.1 hc)
    have hlength : extension.toList.length + 1 < (stem ++ "." ++ extension).toList.length := by
      have hpos : 0 < stem.toList.length := List.length_pos_iff.2 (by simpa using hstem)
      have hlengths := congrArg List.length hreverse
      rw [List.length_reverse, List.length_append, List.length_cons, List.length_reverse,
        List.length_reverse] at hlengths
      omega
    simp only [hafter, List.length_reverse, if_pos hlength, List.reverse_reverse,
      String.ofList_toList]

theorem Library.holdsRecords_iff {name : String} :
    holdsRecords name = true ↔ ∃ stem ≠ "", name = stem ++ ".yaml" ∨ name = stem ++ ".yml" := by
  have happend : ∀ stem extension : String, stem ++ "." ++ extension = stem ++ ("." ++ extension) :=
    fun _ _ => String.append_assoc ..
  have hyaml : '.' ∉ "yaml".toList := by decide
  have hyml : '.' ∉ "yml".toList := by decide
  rw [holdsRecords, Bool.or_eq_true, beq_iff_eq, beq_iff_eq, Path.extension?_eq_some_iff,
    Path.extension?_eq_some_iff]
  simp only [hyaml, hyml, not_false_eq_true, true_and, happend, ← exists_or, ← and_or_left]
  rfl

/-! ## Mappings repeat no key -/

namespace Yaml.Reading

/-- Every value that the reading comes to has the property. -/
def Gives {α : Type} (p : α → Prop) (x : Reading α) : Prop :=
  ∀ left a left', x.run left = some (a, left') → p a

namespace Gives

variable {α β : Type} {p : α → Prop} {a : α}

theorem pure (h : p a) : Gives p (Pure.pure a) := by
  rintro left b left' hb
  cases hb
  exact h

theorem failure : Gives p (Alternative.failure : Reading α) := by
  rintro left b left' hb
  cases hb

theorem lift {o : Option α} (h : ∀ a, o = some a → p a) : Gives p (liftM o : Reading α) := by
  intro left b left' hb
  cases o with
  | none => cases hb
  | some c =>
      cases hb
      exact h b rfl

theorem bind {x : Reading β} {k : β → Reading α} (h : ∀ b, Gives p (k b)) : Gives p (x >>= k) := by
  intro left a left' ha
  rw [StateT.run_bind] at ha
  obtain ⟨⟨b, middle⟩, -, hk⟩ := Option.bind_eq_some_iff.1 ha
  exact h b middle a left' hk

end Gives

/-- The value repeats no key, if it is an object; its parts may. -/
def RepeatsNoKey : Json → Prop
  | .object fields => (Entries.keys fields).Nodup
  | _ => True

theorem scalar?_ne_object {tag : Option String} {bare : Bool} {text : String}
    {fields : List (String × Json)} : scalar? tag bare text ≠ some (.object fields) := by
  have hinteger : ∀ n, integer? n ≠ some (.object fields) := by
    intro n
    rw [integer?]
    split <;> simp [Json.ofInt]
  have hfloat : ∀ x, Json.ofFloat x ≠ .object fields := by
    intro x
    rw [Json.ofFloat]
    split <;> simp
  intro h
  unfold scalar? at h
  repeat' split at h
  all_goals simp [Option.bind_eq_some_iff, hinteger, hfloat] at h

theorem repeatsNoKey_of_scalar? {tag : Option String} {bare : Bool} {text : String} {v : Json}
    (h : scalar? tag bare text = some v) : RepeatsNoKey v := by
  cases v with
  | object fields => exact absurd h scalar?_ne_object
  | _ => trivial

theorem gives_value (named : List (Nat × Node Nat)) (depth : Nat) (n : Node Nat) :
    Gives RepeatsNoKey (value named depth n) := by
  cases depth with
  | zero =>
      rw [value]
      refine .bind fun n => ?_
      split
      · exact .lift fun v => repeatsNoKey_of_scalar?
      · exact .failure
  | succ depth =>
      rw [value]
      refine .bind fun n => ?_
      split
      · exact .lift fun v => repeatsNoKey_of_scalar?
      · split
        · exact .bind fun _ => .bind fun items => .pure trivial
        · exact .bind fun items => .pure trivial
      · split
        · exact .bind fun _ => .bind fun fields => .pure (OrderedMap.ofList fields).nodup_keys
        · exact .bind fun fields => .pure (OrderedMap.ofList fields).nodup_keys
      · exact .failure

end Yaml.Reading

/-- A mapping that has been read repeats no key. -/
theorem Yaml.nodup_keys_of_read? {text : String} {fields : List (String × Json)}
    (h : read? text = some (.object fields)) : (Entries.keys fields).Nodup := by
  rw [read?] at h
  obtain ⟨ts, -, h⟩ := Option.bind_eq_some_iff.1 h
  obtain ⟨n, -, h⟩ := Option.bind_eq_some_iff.1 h
  obtain ⟨⟨n, names⟩, -, h⟩ := Option.bind_eq_some_iff.1 h
  obtain ⟨⟨v, left⟩, hv, h⟩ := Option.bind_eq_some_iff.1 h
  cases h
  exact Reading.gives_value _ _ _ _ _ _ hv

namespace Library

/-! ## The sources of a directory -/

/-- The records of a file, unless it cannot be read, is no YAML or holds no mapping. -/
def mapping? (content : Content) : Option (List (String × Json)) :=
  match (text? content).bind Yaml.read? with
  | some (.object fields) => some fields
  | _ => none

theorem recordsIn_eq (content : Content) : recordsIn content = (mapping? content).getD [] := by
  rw [recordsIn, mapping?]
  cases (text? content).bind Yaml.read? with
  | none => rfl
  | some v => cases v <;> rfl

theorem nodup_keys_of_mapping? {content : Content} {fields : List (String × Json)}
    (h : mapping? content = some fields) : (Entries.keys fields).Nodup := by
  rw [mapping?] at h
  split at h
  · next hread =>
    obtain rfl := Option.some.inj h
    obtain ⟨text, -, hread⟩ := Option.bind_eq_some_iff.1 hread
    exact Yaml.nodup_keys_of_read? hread
  · cases h

/-- The file with its records, if it holds a mapping. -/
def source? (read : String → Content) (directory name : String) :
    Option (String × List (String × Json)) :=
  (mapping? (read (Path.join directory name))).map fun fields => (name, fields)

/-- The files in a directory that records come from, with these records. -/
def sources (read : String → Content) (directory : String) (names : List String) :
    List (String × List (String × Json)) :=
  (names.filter holdsRecords).filterMap (source? read directory)

variable {read read' : String → Content} {directory directory' name : String}
  {names names' : List String} {f : String × List (String × Json)}

theorem source?_eq_some_iff :
    source? read directory name = some f ↔
      f.1 = name ∧ mapping? (read (Path.join directory f.1)) = some f.2 := by
  rw [source?, Option.map_eq_some_iff]
  constructor
  · rintro ⟨fields, hfields, rfl⟩
    exact ⟨rfl, hfields⟩
  · rintro ⟨rfl, hfields⟩
    exact ⟨f.2, hfields, rfl⟩

/-- Which files are sources. -/
theorem mem_sources_iff :
    f ∈ sources read directory names ↔
      f.1 ∈ names ∧ (∃ stem ≠ "", f.1 = stem ++ ".yaml" ∨ f.1 = stem ++ ".yml") ∧
        mapping? (read (Path.join directory f.1)) = some f.2 := by
  rw [sources, List.mem_filterMap]
  simp only [source?_eq_some_iff, List.mem_filter, ← holdsRecords_iff]
  constructor
  · rintro ⟨name, ⟨hname, hextension⟩, rfl, hfields⟩
    exact ⟨hname, hextension, hfields⟩
  · rintro ⟨hname, hextension, hfields⟩
    exact ⟨f.1, ⟨hname, hextension⟩, rfl, hfields⟩

/-- The sources in the order of their names. -/
def sortedSources (read : String → Content) (directory : String) (names : List String) :
    List (String × List (String × Json)) :=
  (recordFiles names).filterMap (source? read directory)

theorem sortedSources_perm : (sortedSources read directory names).Perm
    (sources read directory names) := by
  rw [sortedSources, recordFiles, Text.sort_eq_insertionSort]
  exact (List.perm_insertionSort ..).filterMap _

theorem pairwise_sortedSources :
    (sortedSources read directory names).Pairwise fun f g => f.1 ≤ g.1 := by
  rw [sortedSources, recordFiles, Text.sort_eq_insertionSort]
  refine List.Pairwise.filterMap _ ?_ (List.pairwise_insertionSort (· ≤ ·) _)
  intro name name' hle f hf g hg
  rwa [(source?_eq_some_iff.1 hf).1, (source?_eq_some_iff.1 hg).1]

/-- The same sources are in the same order, whatever else there is and however it is listed. -/
theorem sortedSources_eq_of_perm
    (h : (sources read directory names).Perm (sources read' directory' names')) :
    sortedSources read directory names = sortedSources read' directory' names' := by
  have hperm : (sortedSources read directory names).Perm (sortedSources read' directory' names') :=
    (sortedSources_perm.trans h).trans sortedSources_perm.symm
  refine List.Perm.eq_of_pairwise ?_ pairwise_sortedSources pairwise_sortedSources hperm
  intro f g hf hg hle hge
  obtain ⟨-, -, hfields⟩ := mem_sources_iff.1 (sortedSources_perm.mem_iff.1 hf)
  obtain ⟨-, -, hfields'⟩ :=
    mem_sources_iff.1 (sortedSources_perm.mem_iff.1 (hperm.mem_iff.2 hg))
  have hname : f.1 = g.1 := le_antisymm hle hge
  rw [hname, hfields'] at hfields
  exact Prod.ext hname (Option.some.inj hfields).symm

/-! ## The records of the sources -/

theorem foldl_insertAll_recordsIn (contents : List Content) (rs : Records) :
    contents.foldl (fun rs c => rs.insertAll (recordsIn c)) rs =
      rs.insertAll (contents.flatMap recordsIn) := by
  induction contents generalizing rs with
  | nil => rfl
  | cons c contents ih =>
      rw [List.foldl_cons, ih, List.flatMap_cons, OrderedMap.insertAll_append]

theorem records_eq_ofList (contents : List Content) :
    records contents = .ofList (contents.flatMap recordsIn) :=
  foldl_insertAll_recordsIn contents .empty

theorem flatMap_recordsIn (read : String → Content) (directory : String) (names : List String) :
    (names.map fun name => read (Path.join directory name)).flatMap recordsIn =
      ((names.filterMap (source? read directory)).map Prod.snd).flatten := by
  induction names with
  | nil => rfl
  | cons name names ih =>
      rw [List.map_cons, List.flatMap_cons, ih, recordsIn_eq, List.filterMap_cons, source?]
      cases mapping? (read (Path.join directory name)) with
      | none => rfl
      | some fields => rfl

/-- The records of a directory are those of its sources, merged. -/
theorem records_eq_ofList_sources (read : String → Content) (directory : String)
    (names : List String) :
    records ((recordFiles names).map fun name => read (Path.join directory name)) =
      .ofList ((sortedSources read directory names).map Prod.snd).flatten := by
  rw [records_eq_ofList, flatMap_recordsIn, sortedSources]

theorem mergedByName_records (read : String → Content) (directory : String)
    (names : List String) :
    MergedByName ((sortedSources read directory names).map Prod.snd)
      (records ((recordFiles names).map fun name => read (Path.join directory name))) := by
  rw [records_eq_ofList_sources]
  refine mergedByName_ofList fun fields hfields => ?_
  obtain ⟨f, hf, rfl⟩ := List.mem_map.1 hfields
  obtain ⟨-, -, hmapping⟩ := mem_sources_iff.1 (sortedSources_perm.mem_iff.1 hf)
  exact nodup_keys_of_mapping? hmapping

end Library

end StepGraph
