import StepGraph.Proofs.Saving.RoundTrip

/-!
# Objects are read field by field

The reader of an object goes through the fields once and fills a record. What it makes of a known
field depends on the fields of that key alone, and what it makes of the others on the others alone:
`readOnly` and `readOthers` each read one part of the object and pass over the rest, and the reader
of the whole object gives a record exactly if each of them gives its part.

The fields of a value repeat no key. There a known field is read where it stands, or it is missing,
and the others are kept in their order.
-/

namespace StepGraph.Graph

open Json (Draft)

/-- Reads the field with a key, which may be given once, and passes over all others. -/
def readOnly {α : Type} (read : Draft → Read α) (key : String) :
    Option α → List (String × Draft) → Read (Option α)
  | a, [] => .ok a
  | a, (k, d) :: ds =>
    if k = key then once a (read d) >>= fun a => readOnly read key a ds
    else readOnly read key a ds

/-- Reads the fields with unknown keys and passes over all others. -/
def readOthers (known : List String) :
    OrderedMap String Json → List (String × Draft) → Read (OrderedMap String Json)
  | extra, [] => .ok extra
  | extra, (k, d) :: ds =>
    if k ∈ known then readOthers known extra ds
    else readExtra extra k d >>= fun extra => readOthers known extra ds

/-- The fields with unknown keys, in their order. -/
def others (known : List String) (fields : List (String × Json)) : List (String × Json) :=
  fields.filter fun f => f.1 ∉ known

section

variable {α : Type} {read : Draft → Read α} {key k : String} {d : Draft}
  {ds : List (String × Draft)} {known : List String}

theorem readOnly_cons_self (a : Option α) :
    readOnly read key a ((key, d) :: ds) = once a (read d) >>= fun a => readOnly read key a ds :=
  if_pos rfl

theorem readOnly_cons_of_ne (h : k ≠ key) (a : Option α) :
    readOnly read key a ((k, d) :: ds) = readOnly read key a ds :=
  if_neg h

theorem readOthers_cons_of_mem (h : k ∈ known) (extra : OrderedMap String Json) :
    readOthers known extra ((k, d) :: ds) = readOthers known extra ds :=
  if_pos h

theorem readOthers_cons_of_not_mem (h : k ∉ known) (extra : OrderedMap String Json) :
    readOthers known extra ((k, d) :: ds) =
      readExtra extra k d >>= fun extra => readOthers known extra ds :=
  if_neg h

end

/-! ## Whole objects -/

section

variable {ds : List (String × Draft)}

theorem readFields_slot_eq_ok_iff {s s' : SlotFields} :
    readFields readSlotField s ds = .ok s' ↔
      readOnly readText "name" s.name ds = .ok s'.name ∧
        readOthers Slot.known s.extra ds = .ok s'.extra := by
  induction ds generalizing s with
  | nil =>
      obtain ⟨name, extra⟩ := s
      obtain ⟨name', extra'⟩ := s'
      simp [readFields, readOnly, readOthers]
  | cons f ds ih =>
      obtain ⟨key, d⟩ := f
      rw [readFields, readSlotField]
      by_cases hkey : key ∈ Slot.known
      · rw [readOthers_cons_of_mem hkey]
        obtain rfl := List.mem_singleton.1 hkey
        simp only [if_true, readOnly_cons_self, bind_assoc, pure_bind, Except.bind_eq_ok_iff, ih]
        grind
      · have hother : key ≠ "name" := fun heq => hkey (List.mem_singleton.2 heq)
        simp only [hother, if_false, readOthers_cons_of_not_mem hkey, readOnly_cons_of_ne hother,
          bind_assoc, pure_bind, Except.bind_eq_ok_iff, ih]
        grind

theorem readFields_node_eq_ok_iff {n n' : NodeFields} :
    readFields readNodeField n ds = .ok n' ↔
      readOnly readText "type" n.type ds = .ok n'.type ∧
        readOnly readNodeId "id" n.id ds = .ok n'.id ∧
        readOnly readOrder "order" n.order ds = .ok n'.order ∧
        readOnly (readList readSlot) "inputs" n.slots ds = .ok n'.slots ∧
        readOnly (readList readValue) "widgets_values" n.values ds = .ok n'.values ∧
        readOthers Node.known n.extra ds = .ok n'.extra := by
  induction ds generalizing n with
  | nil =>
      obtain ⟨type, id, order, slots, values, extra⟩ := n
      obtain ⟨type', id', order', slots', values', extra'⟩ := n'
      simp [readFields, readOnly, readOthers]
  | cons f ds ih =>
      obtain ⟨key, d⟩ := f
      rw [readFields, readNodeField]
      by_cases hkey : key ∈ Node.known
      · rw [readOthers_cons_of_mem hkey]
        simp only [Node.known, List.mem_cons, List.not_mem_nil, or_false] at hkey
        -- one field is read, and the readers of the others pass over it
        rcases hkey with rfl | rfl | rfl | rfl | rfl <;>
          simp (disch := decide) only [String.reduceEq, if_true, if_false, readOnly_cons_self,
            readOnly_cons_of_ne, bind_assoc, pure_bind, Except.bind_eq_ok_iff, ih] <;>
          grind
      · have hother := hkey
        simp only [Node.known, List.mem_cons, List.not_mem_nil, or_false, not_or] at hother
        obtain ⟨htype, hid, horder, hinputs, hvalues⟩ := hother
        simp only [htype, hid, horder, hinputs, hvalues, if_false, readOthers_cons_of_not_mem hkey,
          readOnly_cons_of_ne htype, readOnly_cons_of_ne hid, readOnly_cons_of_ne horder,
          readOnly_cons_of_ne hinputs, readOnly_cons_of_ne hvalues, bind_assoc, pure_bind,
          Except.bind_eq_ok_iff, ih]
        grind

theorem readFields_graph_eq_ok_iff {g g' : GraphFields} :
    readFields readGraphField g ds = .ok g' ↔
      readOnly (readList readNode) "nodes" g.nodes ds = .ok g'.nodes ∧
        readOnly (readList readLink) "links" g.links ds = .ok g'.links ∧
        readOthers known g.extra ds = .ok g'.extra := by
  induction ds generalizing g with
  | nil =>
      obtain ⟨nodes, links, extra⟩ := g
      obtain ⟨nodes', links', extra'⟩ := g'
      simp [readFields, readOnly, readOthers]
  | cons f ds ih =>
      obtain ⟨key, d⟩ := f
      rw [readFields, readGraphField]
      by_cases hkey : key ∈ known
      · rw [readOthers_cons_of_mem hkey]
        simp only [known, List.mem_cons, List.not_mem_nil, or_false] at hkey
        rcases hkey with rfl | rfl <;>
          simp (disch := decide) only [String.reduceEq, if_true, if_false, readOnly_cons_self,
            readOnly_cons_of_ne, bind_assoc, pure_bind, Except.bind_eq_ok_iff, ih] <;>
          grind
      · have hother := hkey
        simp only [known, List.mem_cons, List.not_mem_nil, or_false, not_or] at hother
        obtain ⟨hnodes, hlinks⟩ := hother
        simp only [hnodes, hlinks, if_false, readOthers_cons_of_not_mem hkey,
          readOnly_cons_of_ne hnodes, readOnly_cons_of_ne hlinks, bind_assoc, pure_bind,
          Except.bind_eq_ok_iff, ih]
        grind

end

/-! ## The fields of values -/

section

variable {α : Type} {read : Draft → Read α}

theorem readOnly_of_not_mem {key : String} {fs : List (String × Json)}
    (h : key ∉ Entries.keys fs) (a : Option α) :
    readOnly read key a (Json.draftFields fs) = .ok a := by
  induction fs with
  | nil => rfl
  | cons f fs ih =>
      obtain ⟨k, v⟩ := f
      rw [Entries.keys_cons, List.mem_cons, not_or] at h
      rw [Json.draftFields, readOnly_cons_of_ne (Ne.symm h.1), ih h.2]

/-- A known field of a value is read where it stands, or it is missing. -/
theorem readOnly_draftFields_eq_ok_iff {key : String} {fs : List (String × Json)}
    (hnodup : (Entries.keys fs).Nodup) {a : Option α} :
    readOnly read key none (Json.draftFields fs) = .ok a ↔
      Option.Rel (fun v a => read v.draft = .ok a) (Entries.find? key fs) a := by
  induction fs with
  | nil => cases a <;> simp [Json.draftFields, readOnly]
  | cons f fs ih =>
      obtain ⟨k, v⟩ := f
      obtain ⟨hk, hnodup⟩ := List.nodup_cons.1 hnodup
      rw [Json.draftFields, readOnly, Entries.find?_cons]
      by_cases hkey : k = key
      · subst hkey
        simp only [if_true, Except.bind_eq_ok_iff, readOnly_of_not_mem hk, once]
        cases hread : read v.draft with
        | error e => cases a <;> simp [Except.map, hread]
        | ok b => cases a <;> simp [Except.map, hread]
      · rw [if_neg hkey, if_neg hkey, ih hnodup]

theorem readOthers_draftFields {known : List String} {fs : List (String × Json)}
    (hfs : ∀ f ∈ fs, f.2.WellFormed) (extra : OrderedMap String Json) :
    readOthers known extra (Json.draftFields fs) = .ok (extra.insertAll (others known fs)) := by
  induction fs generalizing extra with
  | nil => rfl
  | cons f fs ih =>
      obtain ⟨k, v⟩ := f
      obtain ⟨hv, hfs⟩ := List.forall_mem_cons.1 hfs
      rw [Json.draftFields, readOthers, others, List.filter_cons]
      by_cases hk : k ∈ known
      · rw [if_pos hk, if_neg (by simpa using hk), ih hfs, others]
      · rw [if_neg hk, if_pos (by simpa using hk), readExtra, readValue_draft hv]
        exact ih hfs (extra.insert k v)

/-- The other fields of a value are kept, in their order. -/
theorem readOthers_draftFields_eq_ok_iff {known : List String} {fs : List (String × Json)}
    (hfs : (Json.object fs).WellFormed) {extra : OrderedMap String Json} :
    readOthers known .empty (Json.draftFields fs) = .ok extra ↔
      extra.entries = others known fs := by
  obtain ⟨hnodup, hvalues⟩ := Json.wellFormed_object_iff.1 hfs
  have hothers : (Entries.keys (others known fs)).Nodup :=
    hnodup.sublist (List.filter_sublist.map Prod.fst)
  have hentries := OrderedMap.entries_ofList_of_nodup hothers
  rw [readOthers_draftFields hvalues, Except.ok.injEq]
  constructor
  · rintro rfl
    exact hentries
  · intro h
    exact OrderedMap.ext_entries (hentries.trans h.symm)

theorem exists_readOthers {known : List String} {fs : List (String × Json)}
    (hfs : (Json.object fs).WellFormed) :
    ∃ extra, readOthers known .empty (Json.draftFields fs) = .ok extra :=
  ⟨_, readOthers_draftFields (Json.wellFormed_object_iff.1 hfs).2 .empty⟩

end

end StepGraph.Graph
