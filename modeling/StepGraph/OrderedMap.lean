/-!
# Maps that remember the order of their keys

An `OrderedMap κ α` lists pairs of a key and a value, each key once.  Inserting under a key that is
already there keeps the key's position and replaces its value; a new key goes to the end.  The order
of the pairs is part of the value: two maps with the same pairs in another order differ.

The operations are first given on bare lists of pairs (`Entries`), where they are plain recursions,
and then on `OrderedMap`, which carries the proof that no key is repeated.  JSON objects use the
bare lists, because a recursive type cannot carry such a proof.
-/

namespace StepGraph

universe u v w

namespace Entries

variable {κ : Type u} {α : Type v}

/-- The keys of a list of pairs, in order. -/
def keys (es : List (κ × α)) : List κ := es.map Prod.fst

@[simp] theorem keys_nil : keys ([] : List (κ × α)) = [] := rfl

@[simp] theorem keys_cons (e : κ × α) (es : List (κ × α)) : keys (e :: es) = e.1 :: keys es := rfl

/-- Dropping pairs and changing values neither adds keys nor moves them. -/
theorem keys_filterMap_sublist {β : Type w} (f : κ → α → Option β) (es : List (κ × α)) :
    (keys (es.filterMap fun e => (f e.1 e.2).map fun b => (e.1, b))).Sublist (keys es) := by
  induction es with
  | nil => exact List.Sublist.refl _
  | cons e es ih =>
    cases h : f e.1 e.2 with
    | none => simpa [List.filterMap_cons, h] using ih.cons e.1
    | some b => simpa [List.filterMap_cons, h] using ih.cons_cons e.1

variable [DecidableEq κ]

/-- The value of the first pair with key `k`. -/
def find? (k : κ) : List (κ × α) → Option α
  | [] => none
  | (k', a) :: es => if k' = k then some a else find? k es

@[simp] theorem find?_nil (k : κ) : find? k ([] : List (κ × α)) = none := rfl

theorem find?_cons (k : κ) (e : κ × α) (es : List (κ × α)) :
    find? k (e :: es) = if e.1 = k then some e.2 else find? k es := rfl

theorem find?_eq_none_iff {k : κ} {es : List (κ × α)} : find? k es = none ↔ k ∉ keys es := by
  induction es with
  | nil => simp
  | cons e es ih =>
    by_cases h : e.1 = k
    · simp [find?_cons, h]
    · simp [find?_cons, h, ih, Ne.symm h]

theorem find?_append (k : κ) (es fs : List (κ × α)) :
    find? k (es ++ fs) = (find? k es).or (find? k fs) := by
  induction es with
  | nil => rfl
  | cons e es ih =>
    by_cases h : e.1 = k
    · simp [find?_cons, h]
    · simp [find?_cons, h, ih]

/-- Puts `a` under `k`: in place of the value there, or at the end. -/
def insert (k : κ) (a : α) : List (κ × α) → List (κ × α)
  | [] => [(k, a)]
  | (k', b) :: es => if k' = k then (k, a) :: es else (k', b) :: insert k a es

@[simp] theorem insert_nil (k : κ) (a : α) : insert k a [] = [(k, a)] := rfl

theorem insert_cons (k : κ) (a : α) (e : κ × α) (es : List (κ × α)) :
    insert k a (e :: es) = if e.1 = k then (k, a) :: es else e :: insert k a es := rfl

/-- Drops the first pair with key `k`. -/
def erase (k : κ) : List (κ × α) → List (κ × α)
  | [] => []
  | (k', b) :: es => if k' = k then es else (k', b) :: erase k es

@[simp] theorem erase_nil (k : κ) : erase k ([] : List (κ × α)) = [] := rfl

theorem erase_cons (k : κ) (e : κ × α) (es : List (κ × α)) :
    erase k (e :: es) = if e.1 = k then es else e :: erase k es := rfl

/-- Applies `f` to the value of the first pair with key `k`. -/
def update (k : κ) (f : α → α) : List (κ × α) → List (κ × α)
  | [] => []
  | (k', b) :: es => if k' = k then (k', f b) :: es else (k', b) :: update k f es

@[simp] theorem update_nil (k : κ) (f : α → α) : update k f [] = [] := rfl

theorem update_cons (k : κ) (f : α → α) (e : κ × α) (es : List (κ × α)) :
    update k f (e :: es) = if e.1 = k then (e.1, f e.2) :: es else e :: update k f es := rfl

theorem keys_insert (k : κ) (a : α) (es : List (κ × α)) :
    keys (insert k a es) = if k ∈ keys es then keys es else keys es ++ [k] := by
  induction es with
  | nil => simp
  | cons e es ih =>
    by_cases h : e.1 = k
    · simp [insert_cons, h]
    · by_cases hk : k ∈ keys es
      · simp [insert_cons, h, ih, hk]
      · simp [insert_cons, h, ih, hk, Ne.symm h]

/-- A repeated key adds nothing to the keys in the order of their first appearance, and a new one
goes to the end. -/
theorem eraseDups_append_singleton (ks : List κ) (k : κ) :
    (ks ++ [k]).eraseDups = if k ∈ ks then ks.eraseDups else ks.eraseDups ++ [k] := by
  rw [List.eraseDups_append]
  by_cases h : k ∈ ks
  · simp [h, List.removeAll]
  · simp [h, List.removeAll, List.eraseDups_cons]

@[simp] theorem keys_update (k : κ) (f : α → α) (es : List (κ × α)) :
    keys (update k f es) = keys es := by
  induction es with
  | nil => rfl
  | cons e es ih =>
    by_cases h : e.1 = k
    · simp [update_cons, h]
    · simp [update_cons, h, ih]

@[simp] theorem length_update (k : κ) (f : α → α) (es : List (κ × α)) :
    (update k f es).length = es.length := by
  have h := congrArg List.length (keys_update k f es)
  rwa [keys, keys, List.length_map, List.length_map] at h

theorem erase_sublist (k : κ) (es : List (κ × α)) : (erase k es).Sublist es := by
  induction es with
  | nil => exact List.Sublist.refl _
  | cons e es ih =>
    rw [erase_cons]
    split
    · exact List.sublist_cons_self e es
    · exact ih.cons_cons e

/-- Where no key is repeated, all pairs with other keys are left. -/
theorem erase_eq_filter {es : List (κ × α)} (h : (keys es).Nodup) (k : κ) :
    erase k es = es.filter fun e => e.1 ≠ k := by
  induction es with
  | nil => rfl
  | cons e es ih =>
    obtain ⟨hnew, h⟩ := List.nodup_cons.1 h
    rw [erase_cons]
    split
    · next hk =>
      have hothers : es.filter (fun e => e.1 ≠ k) = es := by
        refine List.filter_eq_self.2 fun f hf => decide_eq_true fun hfk => hnew ?_
        rw [hk, ← hfk]
        exact List.mem_map_of_mem hf
      rw [List.filter_cons_of_neg (by simpa using hk), hothers]
    · next hk => rw [List.filter_cons_of_pos (by simpa using hk), ih h]

theorem nodup_keys_insert {es : List (κ × α)} (h : (keys es).Nodup) (k : κ) (a : α) :
    (keys (insert k a es)).Nodup := by
  rw [keys_insert]
  split
  · exact h
  · next hk =>
    refine List.nodup_append.2 ⟨h, by simp, ?_⟩
    intro x hx y hy
    have : y = k := by simpa using hy
    exact fun hxy => hk (this ▸ hxy ▸ hx)

theorem nodup_keys_erase {es : List (κ × α)} (h : (keys es).Nodup) (k : κ) :
    (keys (erase k es)).Nodup :=
  h.sublist ((erase_sublist k es).map Prod.fst)

theorem find?_insert (k k' : κ) (a : α) (es : List (κ × α)) :
    find? k' (insert k a es) = if k = k' then some a else find? k' es := by
  induction es with
  | nil => simp [find?_cons]
  | cons e es ih =>
    by_cases h : e.1 = k
    · by_cases hk : k = k'
      · simp [insert_cons, find?_cons, h, hk]
      · simp [insert_cons, find?_cons, h, hk]
    · by_cases hk : e.1 = k'
      · have hne : k ≠ k' := fun he => h (hk.trans he.symm)
        rw [insert_cons, if_neg h, find?_cons, if_pos hk, find?_cons, if_pos hk, if_neg hne]
      · simp [insert_cons, find?_cons, h, hk, ih]

/-- A new key goes to the end. -/
theorem insert_of_not_mem {k : κ} {es : List (κ × α)} (h : k ∉ keys es) (a : α) :
    insert k a es = es ++ [(k, a)] := by
  induction es with
  | nil => rfl
  | cons e es ih =>
    have hne : e.1 ≠ k := fun he => h (by simp [he])
    have htail : k ∉ keys es := fun hk => h (by simp [hk])
    simp [insert_cons, hne, ih htail]

theorem mem_of_find?_eq_some {k : κ} {a : α} {es : List (κ × α)} (h : find? k es = some a) :
    (k, a) ∈ es := by
  induction es with
  | nil => simp at h
  | cons e es ih =>
    by_cases hk : e.1 = k
    · have ha : e.2 = a := by simpa [find?_cons, hk] using h
      exact List.mem_cons.2 (.inl (by rw [← hk, ← ha]))
    · exact List.mem_cons_of_mem e (ih (by simpa [find?_cons, hk] using h))

/-- Where a value is found, and what dropping it or applying a function to it leaves there. -/
theorem exists_of_find?_eq_some {k : κ} {a : α} {es : List (κ × α)} (h : find? k es = some a) :
    ∃ before after, es = before ++ (k, a) :: after ∧ erase k es = before ++ after ∧
      ∀ f, update k f es = before ++ (k, f a) :: after := by
  induction es with
  | nil => simp at h
  | cons e es ih =>
    by_cases hk : e.1 = k
    · have ha : e.2 = a := by simpa [find?_cons, hk] using h
      refine ⟨[], es, ?_, ?_, fun f => ?_⟩
      · rw [← hk, ← ha]; rfl
      · rw [erase_cons, if_pos hk]; rfl
      · rw [update_cons, if_pos hk, hk, ha]; rfl
    · obtain ⟨before, after, rfl, herase, hupdate⟩ := ih (by simpa [find?_cons, hk] using h)
      refine ⟨e :: before, after, rfl, ?_, fun f => ?_⟩
      · rw [erase_cons, if_neg hk, herase]; rfl
      · rw [update_cons, if_neg hk, hupdate]; rfl

theorem find?_erase_of_ne {k k' : κ} {es : List (κ × α)} (h : k ≠ k') :
    find? k' (erase k es) = find? k' es := by
  induction es with
  | nil => rfl
  | cons e es ih =>
    by_cases hk : e.1 = k
    · have hne : e.1 ≠ k' := fun he => h (hk.symm.trans he)
      rw [erase_cons, if_pos hk, find?_cons, if_neg hne]
    · rw [erase_cons, if_neg hk, find?_cons, find?_cons, ih]

theorem find?_update_self (k : κ) (f : α → α) (es : List (κ × α)) :
    find? k (update k f es) = (find? k es).map f := by
  induction es with
  | nil => rfl
  | cons e es ih =>
    by_cases hk : e.1 = k
    · simp [update_cons, find?_cons, hk]
    · simp [update_cons, find?_cons, hk, ih]

/-- Where no key is repeated, the value under a key is that of the pair with the key. -/
theorem find?_eq_some_iff {k : κ} {a : α} {es : List (κ × α)} (hnodup : (keys es).Nodup) :
    find? k es = some a ↔ (k, a) ∈ es := by
  refine ⟨mem_of_find?_eq_some, fun h => ?_⟩
  induction es with
  | nil => simp at h
  | cons e es ih =>
    obtain ⟨hnew, hnodup⟩ := List.nodup_cons.1 hnodup
    rcases List.mem_cons.1 h with rfl | h
    · simp [find?_cons]
    · have hne : e.1 ≠ k := fun he => hnew (he ▸ List.mem_map_of_mem h)
      simpa [find?_cons, hne] using ih hnodup h

end Entries

/-- Pairs of a key and a value in a fixed order, no key twice. -/
structure OrderedMap (κ : Type u) (α : Type v) where
  entries : List (κ × α)
  nodup_keys : (Entries.keys entries).Nodup

namespace OrderedMap

variable {κ : Type u} {α : Type v} {β : Type w}

theorem ext_entries {m m' : OrderedMap κ α} (h : m.entries = m'.entries) : m = m' := by
  cases m; cases m'; cases h; rfl

instance [DecidableEq κ] [DecidableEq α] : DecidableEq (OrderedMap κ α) := fun m m' =>
  decidable_of_iff (m.entries = m'.entries) ⟨ext_entries, fun h => h ▸ rfl⟩

def empty : OrderedMap κ α := ⟨[], List.nodup_nil⟩

@[simp] theorem entries_empty : (empty : OrderedMap κ α).entries = [] := rfl

instance : EmptyCollection (OrderedMap κ α) := ⟨empty⟩

instance : Inhabited (OrderedMap κ α) := ⟨empty⟩

def keys (m : OrderedMap κ α) : List κ := Entries.keys m.entries

/-- The values, in the order of their keys. -/
def values (m : OrderedMap κ α) : List α := m.entries.map Prod.snd

def size (m : OrderedMap κ α) : Nat := m.entries.length

def isEmpty (m : OrderedMap κ α) : Bool := m.entries.isEmpty

/-- Keeps the pairs for which `f` has a value, with that value. -/
def filterMap (f : κ → α → Option β) (m : OrderedMap κ α) : OrderedMap κ β where
  entries := m.entries.filterMap fun e => (f e.1 e.2).map fun b => (e.1, b)
  nodup_keys := m.nodup_keys.sublist (Entries.keys_filterMap_sublist f m.entries)

variable [DecidableEq κ]

/-- The value under `k`. -/
def find? (m : OrderedMap κ α) (k : κ) : Option α := Entries.find? k m.entries

def contains (m : OrderedMap κ α) (k : κ) : Bool := (m.find? k).isSome

/-- Puts `a` under `k`, in the place of an older value there, else at the end. -/
def insert (m : OrderedMap κ α) (k : κ) (a : α) : OrderedMap κ α :=
  ⟨Entries.insert k a m.entries, Entries.nodup_keys_insert m.nodup_keys k a⟩

/-- Drops the pair under `k`; the others keep their order. -/
def erase (m : OrderedMap κ α) (k : κ) : OrderedMap κ α :=
  ⟨Entries.erase k m.entries, Entries.nodup_keys_erase m.nodup_keys k⟩

/-- Applies `f` to the value under `k`, if there is one. -/
def update (m : OrderedMap κ α) (k : κ) (f : α → α) : OrderedMap κ α :=
  ⟨Entries.update k f m.entries, by
    have h := m.nodup_keys
    rwa [← Entries.keys_update k f m.entries] at h⟩

/-- Inserts the pairs of a list one after the other. -/
def insertAll (m : OrderedMap κ α) (es : List (κ × α)) : OrderedMap κ α :=
  es.foldl (fun m e => m.insert e.1 e.2) m

/-- The map a list of pairs describes: a repeated key keeps its first place and takes its last
value. -/
def ofList (es : List (κ × α)) : OrderedMap κ α := empty.insertAll es

@[simp] theorem entries_insert (m : OrderedMap κ α) (k : κ) (a : α) :
    (m.insert k a).entries = Entries.insert k a m.entries := rfl

@[simp] theorem entries_erase (m : OrderedMap κ α) (k : κ) :
    (m.erase k).entries = Entries.erase k m.entries := rfl

@[simp] theorem entries_update (m : OrderedMap κ α) (k : κ) (f : α → α) :
    (m.update k f).entries = Entries.update k f m.entries := rfl

theorem mem_keys_iff {m : OrderedMap κ α} {k : κ} : k ∈ m.keys ↔ ∃ a, m.find? k = some a := by
  rw [← Option.isSome_iff_exists, Option.isSome_iff_ne_none, ne_eq, find?,
    Entries.find?_eq_none_iff, Decidable.not_not, keys]

theorem find?_eq_some_iff {m : OrderedMap κ α} {k : κ} {a : α} :
    m.find? k = some a ↔ (k, a) ∈ m.entries :=
  Entries.find?_eq_some_iff m.nodup_keys

theorem find?_eq_none_iff {m : OrderedMap κ α} {k : κ} : m.find? k = none ↔ k ∉ m.keys :=
  Entries.find?_eq_none_iff

theorem contains_iff_mem_keys {m : OrderedMap κ α} {k : κ} : m.contains k = true ↔ k ∈ m.keys := by
  rw [contains, Option.isSome_iff_exists, mem_keys_iff]

@[simp] theorem find?_empty (k : κ) : (empty : OrderedMap κ α).find? k = none := rfl

theorem find?_insert (m : OrderedMap κ α) (k k' : κ) (a : α) :
    (m.insert k a).find? k' = if k = k' then some a else m.find? k' :=
  Entries.find?_insert k k' a m.entries

/-- A new key goes to the end. -/
theorem entries_insert_of_not_mem {m : OrderedMap κ α} {k : κ} (h : k ∉ m.keys) (a : α) :
    (m.insert k a).entries = m.entries ++ [(k, a)] :=
  Entries.insert_of_not_mem h a

theorem keys_insert_of_not_mem {m : OrderedMap κ α} {k : κ} (h : k ∉ m.keys) (a : α) :
    (m.insert k a).keys = m.keys ++ [k] := by
  rw [keys, entries_insert_of_not_mem h, Entries.keys, List.map_append]
  rfl

theorem find?_filterMap (f : κ → α → Option β) (m : OrderedMap κ α) (k : κ) :
    (m.filterMap f).find? k = (m.find? k).bind (f k) := by
  refine Option.ext fun b => ?_
  rw [find?_eq_some_iff, Option.bind_eq_some_iff, filterMap, List.mem_filterMap]
  constructor
  · rintro ⟨⟨k', a⟩, he, hb⟩
    obtain ⟨b', hb', heq⟩ := Option.map_eq_some_iff.1 hb
    obtain ⟨rfl, rfl⟩ := Prod.mk.inj heq
    exact ⟨a, find?_eq_some_iff.2 he, hb'⟩
  · rintro ⟨a, ha, hb⟩
    exact ⟨(k, a), find?_eq_some_iff.1 ha, Option.map_eq_some_iff.2 ⟨b, hb, rfl⟩⟩

theorem mem_keys_of_mem_keys_filterMap {f : κ → α → Option β} {m : OrderedMap κ α} {k : κ}
    (h : k ∈ (m.filterMap f).keys) : k ∈ m.keys := by
  obtain ⟨b, hb⟩ := mem_keys_iff.1 h
  rw [find?_filterMap] at hb
  obtain ⟨a, ha, -⟩ := Option.bind_eq_some_iff.1 hb
  exact mem_keys_iff.2 ⟨a, ha⟩

@[simp] theorem insertAll_nil (m : OrderedMap κ α) : m.insertAll [] = m := rfl

@[simp] theorem insertAll_cons (m : OrderedMap κ α) (e : κ × α) (es : List (κ × α)) :
    m.insertAll (e :: es) = (m.insert e.1 e.2).insertAll es := rfl

theorem insertAll_append (m : OrderedMap κ α) (es fs : List (κ × α)) :
    m.insertAll (es ++ fs) = (m.insertAll es).insertAll fs :=
  List.foldl_append

theorem mem_entries_insert {m : OrderedMap κ α} {k : κ} {a : α} {e : κ × α}
    (h : e ∈ (m.insert k a).entries) : e = (k, a) ∨ e ∈ m.entries := by
  have hfind : (m.insert k a).find? e.1 = some e.2 := find?_eq_some_iff.2 h
  rw [find?_insert] at hfind
  split at hfind
  · next hk => exact .inl (by rw [hk, Option.some.inj hfind])
  · exact .inr (find?_eq_some_iff.1 hfind)

theorem mem_entries_insertAll {m : OrderedMap κ α} {es : List (κ × α)} {e : κ × α}
    (h : e ∈ (m.insertAll es).entries) : e ∈ m.entries ∨ e ∈ es := by
  induction es generalizing m with
  | nil => exact .inl h
  | cons f es ih =>
    rcases ih h with h | h
    · rcases mem_entries_insert h with rfl | h
      · exact .inr (List.mem_cons_self ..)
      · exact .inl h
    · exact .inr (List.mem_cons_of_mem f h)

theorem find?_insertAll (m : OrderedMap κ α) (es : List (κ × α)) (k : κ) :
    (m.insertAll es).find? k =
      ((es.filter fun e => e.1 = k).getLast?.map Prod.snd).or (m.find? k) := by
  induction es generalizing m with
  | nil => rfl
  | cons e es ih =>
    rw [insertAll_cons, ih, find?_insert, List.filter_cons]
    by_cases h : e.1 = k
    · rw [if_pos h, if_pos (by simpa using h), List.getLast?_cons]
      cases (es.filter fun e => e.1 = k).getLast? with
      | none => rfl
      | some last => rfl
    · rw [if_neg h, if_neg (by simpa using h)]

/-- Pairs with other keys leave a value as it is. -/
theorem find?_insertAll_of_not_mem (m : OrderedMap κ α) {es : List (κ × α)} {k : κ}
    (h : k ∉ Entries.keys es) : (m.insertAll es).find? k = m.find? k := by
  have hnone : (es.filter fun e => e.1 = k) = [] := by
    refine List.filter_eq_nil_iff.2 fun e he hk => h ?_
    rw [← of_decide_eq_true hk]
    exact List.mem_map_of_mem he
  rw [find?_insertAll, hnone]
  rfl

/-- Among pairs that repeat no key, it is the pair with the key that counts. -/
theorem find?_insertAll_of_nodup {es : List (κ × α)} (h : (Entries.keys es).Nodup)
    (m : OrderedMap κ α) (k : κ) :
    (m.insertAll es).find? k = (Entries.find? k es).or (m.find? k) := by
  induction es generalizing m with
  | nil => rfl
  | cons e es ih =>
    obtain ⟨hnew, hnodup⟩ := List.nodup_cons.1 h
    rw [insertAll_cons, ih hnodup, find?_insert, Entries.find?_cons]
    by_cases hk : e.1 = k
    · rw [if_pos hk, if_pos hk, Entries.find?_eq_none_iff.2 (hk ▸ hnew)]
      rfl
    · rw [if_neg hk, if_neg hk]

/-- In the map a list of pairs describes, a key has the last of its values. -/
theorem find?_ofList (es : List (κ × α)) (k : κ) :
    (ofList es).find? k = (es.filter fun e => e.1 = k).getLast?.map Prod.snd := by
  rw [ofList, find?_insertAll, find?_empty, Option.or_none]

/-- Pairs with new keys, no key twice, go to the end as they are. -/
theorem entries_insertAll_of_nodup {m : OrderedMap κ α} {es : List (κ × α)}
    (h : (m.keys ++ Entries.keys es).Nodup) : (m.insertAll es).entries = m.entries ++ es := by
  induction es generalizing m with
  | nil => simp
  | cons e es ih =>
    obtain ⟨hm, hes, hdisjoint⟩ := List.nodup_append.1 h
    have hnew : e.1 ∉ m.keys := fun hk => hdisjoint e.1 hk e.1 (List.mem_cons_self ..) rfl
    rw [insertAll_cons, ih, entries_insert_of_not_mem hnew, List.append_assoc]
    · rfl
    · rw [keys_insert_of_not_mem hnew, List.append_assoc]
      exact h

/-- The map a list of pairs describes is the list itself if no key is repeated. -/
theorem entries_ofList_of_nodup {es : List (κ × α)} (h : (Entries.keys es).Nodup) :
    (ofList es).entries = es :=
  entries_insertAll_of_nodup (m := empty) h

end OrderedMap

end StepGraph
