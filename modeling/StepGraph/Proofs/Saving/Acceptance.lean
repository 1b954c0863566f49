import Mathlib.Data.List.Forall2
import StepGraph.Proofs.Saving.Format

/-!
# The reader accepts its format

The reader accepts the values of the format and no others, and it keeps all of such a value up to
the normal form: this is what is written of the graph that was read.

A reader `Saves` a format if these two things hold of it. That lifts from the parts to lists and to
the fields of objects, so there is one lemma for each level.
-/

namespace StepGraph.Graph

open Json (Draft)

/-! ## Readers that save a format -/

/-- The reader accepts the values of a format, and what it read of one is written in normal form. -/
structure Saves {α : Type} (read : Draft → Read α) (write : α → Json) (format : Json → Prop)
    (normal : Json → Json) : Prop where
  accepts : ∀ {v : Json}, v.WellFormed → ((∃ a, read v.draft = .ok a) ↔ format v)
  writes : ∀ {v : Json}, v.WellFormed → ∀ {a}, read v.draft = .ok a → write a = normal v

section

variable {α : Type} {read : Draft → Read α} {write : α → Json} {format : Json → Prop}
  {normal : Json → Json}

/-! ### Lists -/

theorem readEach_draftItems_eq_ok_iff {vs : List Json} {as : List α} :
    readEach read (Json.draftItems vs) = .ok as ↔
      List.Forall₂ (fun v a => read v.draft = .ok a) vs as := by
  induction vs generalizing as with
  | nil => simp [Json.draftItems, readEach, eq_comm]
  | cons v vs ih =>
      simp only [Json.draftItems, readEach, Except.bind_eq_ok_iff, List.forall₂_cons_left_iff, ih]
      constructor
      · rintro ⟨a, ha, as', has, ⟨⟩⟩
        exact ⟨a, as', ha, has, rfl⟩
      · rintro ⟨a, as', ha, has, rfl⟩
        exact ⟨a, ha, as', has, rfl⟩

theorem readList_draft_eq_ok_iff {v : Json} {as : List α} :
    readList read v.draft = .ok as ↔
      ∃ vs, v = .array vs ∧ List.Forall₂ (fun v a => read v.draft = .ok a) vs as := by
  cases v with
  | array vs =>
      have hlist : readList read (Json.array vs).draft = readEach read (Json.draftItems vs) := by
        rw [Json.draft, readList]
        cases readEach read (Json.draftItems vs) with
        | error e => rfl
        | ok as => rfl
      rw [hlist, readEach_draftItems_eq_ok_iff]
      simp
  | _ => simp [Json.draft, readList]

theorem exists_forall₂_iff {α β : Type} {r : α → β → Prop} {as : List α} :
    (∃ bs, List.Forall₂ r as bs) ↔ ∀ a ∈ as, ∃ b, r a b := by
  induction as with
  | nil => simp
  | cons a as ih =>
      rw [List.forall_mem_cons, ← ih]
      constructor
      · rintro ⟨_, hbs⟩
        cases hbs with
        | cons hb hbs => exact ⟨⟨_, hb⟩, _, hbs⟩
      · rintro ⟨⟨b, hb⟩, bs, hbs⟩
        exact ⟨b :: bs, .cons hb hbs⟩

theorem Saves.map_write (h : Saves read write format normal) {vs : List Json} {as : List α}
    (hvs : ∀ v ∈ vs, v.WellFormed) (has : List.Forall₂ (fun v a => read v.draft = .ok a) vs as) :
    as.map write = vs.map normal := by
  induction has with
  | nil => rfl
  | cons ha _ ih =>
      obtain ⟨hv, hvs⟩ := List.forall_mem_cons.1 hvs
      rw [List.map_cons, List.map_cons, h.writes hv ha, ih hvs]

theorem Saves.list (h : Saves read write format normal) :
    Saves (readList read) (fun as => .array (as.map write)) (IsList format)
      (normalItems normal) where
  accepts {v} hv := by
    simp only [readList_draft_eq_ok_iff, IsList]
    rw [exists_comm]
    refine exists_congr fun vs => ?_
    rw [exists_and_left, exists_forall₂_iff]
    refine and_congr_right fun hvs => forall₂_congr fun v hmem => h.accepts ?_
    exact Json.wellFormed_array_iff.1 (hvs ▸ hv) v hmem
  writes {v} hv as has := by
    obtain ⟨vs, rfl, hread⟩ := readList_draft_eq_ok_iff.1 has
    exact congrArg Json.array (h.map_write (Json.wellFormed_array_iff.1 hv) hread)

/-! ### Fields -/

theorem exists_optionRel_iff {α β : Type} {r : α → β → Prop} {a : Option α} :
    (∃ b, Option.Rel r a b) ↔ ∀ v ∈ a, ∃ b, r v b := by
  cases a with
  | none => exact iff_of_true ⟨none, .none⟩ (by simp)
  | some v =>
      constructor
      · rintro ⟨_, ⟨hb⟩⟩ _ ⟨⟩
        exact ⟨_, hb⟩
      · intro h
        obtain ⟨b, hb⟩ := h v rfl
        exact ⟨some b, .some hb⟩

theorem Saves.accepts_field (h : Saves read write format normal) {key : String}
    {fs : List (String × Json)} (hfs : (Json.object fs).WellFormed) :
    (∃ a, readOnly read key none (Json.draftFields fs) = .ok a) ↔
      ∀ v ∈ Entries.find? key fs, format v := by
  obtain ⟨hnodup, hvalues⟩ := Json.wellFormed_object_iff.1 hfs
  simp only [readOnly_draftFields_eq_ok_iff hnodup, exists_optionRel_iff]
  refine forall₂_congr fun v hv => h.accepts ?_
  exact hvalues _ (Entries.mem_of_find?_eq_some hv)

theorem Saves.writes_field (h : Saves read write format normal) {key : String}
    {fs : List (String × Json)} (hfs : (Json.object fs).WellFormed) {a : Option α}
    (ha : readOnly read key none (Json.draftFields fs) = .ok a) :
    a.map write = (Entries.find? key fs).map normal := by
  obtain ⟨hnodup, hvalues⟩ := Json.wellFormed_object_iff.1 hfs
  have hrel := (readOnly_draftFields_eq_ok_iff hnodup).1 ha
  cases hfind : Entries.find? key fs with
  | none =>
      rw [hfind] at hrel
      cases hrel
      rfl
  | some v =>
      have hv : v.WellFormed := hvalues _ (Entries.mem_of_find?_eq_some hfind)
      rw [hfind] at hrel
      cases hrel with
      | some hread => exact congrArg some (h.writes hv hread)

/-- A field that must be there. -/
theorem Saves.accepts_given (h : Saves read write format normal) {key : String}
    {fs : List (String × Json)} (hfs : (Json.object fs).WellFormed) :
    (∃ a, readOnly read key none (Json.draftFields fs) = .ok (some a)) ↔
      ∃ v ∈ Entries.find? key fs, format v := by
  obtain ⟨hnodup, hvalues⟩ := Json.wellFormed_object_iff.1 hfs
  simp only [readOnly_draftFields_eq_ok_iff hnodup]
  cases hfind : Entries.find? key fs with
  | none => simp
  | some v =>
      have hv : v.WellFormed := hvalues _ (Entries.mem_of_find?_eq_some hfind)
      simp [← h.accepts hv]

theorem readObject_draft_eq_ok_iff {start a : α} {read : α → String → Draft → Read α} {v : Json} :
    readObject start read v.draft = .ok a ↔
      ∃ fs, v = .object fs ∧ readFields read start (Json.draftFields fs) = .ok a := by
  cases v with
  | object fs => simp [readObject_draft]
  | _ => simp [Json.draft, readObject]

end

/-! ## The levels of a graph -/

theorem saves_text : Saves readText .string IsText id where
  accepts {v} _ := by cases v <;> simp [Json.draft, readText, IsText]
  writes {v} _ s h := by
    cases v with
    | string s' =>
        cases h
        rfl
    | _ => cases h

theorem saves_value : Saves readValue id (fun _ => True) id where
  accepts hv := iff_true_intro ⟨_, readValue_draft hv⟩
  writes hv v h := by
    rw [readValue_draft hv] at h
    exact (Except.ok.inj h).symm

theorem json_of_ofJson? {v : Json} {id : NodeId} (h : NodeId.ofJson? v = some id) :
    id.json = normalId v := by
  cases v with
  | number n =>
      cases h
      exact NodeId.json_eq _
  | string s =>
      cases h
      exact NodeId.json_eq _
  | _ => cases h

theorem isId_iff {v : Json} : IsId v ↔ ∃ id, NodeId.ofJson? v = some id := by
  cases v <;> simp [IsId, NodeId.ofJson?]

/-- What may be `null` is read as `none` there. -/
theorem exists_nullable_iff {α : Type} {v : Json} {P : α → Prop} :
    (∃ a? : Option α, (v = .null ∧ a? = none) ∨ ∃ a, P a ∧ a? = some a) ↔ v = .null ∨ ∃ a, P a := by
  constructor
  · rintro ⟨_, ⟨hv, -⟩ | ⟨a, ha, -⟩⟩
    · exact .inl hv
    · exact .inr ⟨a, ha⟩
  · rintro (hv | ⟨a, ha⟩)
    · exact ⟨none, .inl ⟨hv, rfl⟩⟩
    · exact ⟨some a, .inr ⟨a, ha, rfl⟩⟩

theorem readNodeId_draft_eq_ok_iff {v : Json} (hv : v.WellFormed) {id : Option NodeId} :
    readNodeId v.draft = .ok id ↔
      (v = .null ∧ id = none) ∨ ∃ i, NodeId.ofJson? v = some i ∧ id = some i := by
  rw [readNodeId, readValue_draft hv]
  cases v <;> simp [readId, NodeId.ofJson?, Except.map, eq_comm, Except.ok_bind, pure, Except.pure]

theorem saves_nodeId :
    Saves readNodeId (fun id => (id.map NodeId.json).getD .null) (fun v => v = .null ∨ IsId v)
      normalId where
  accepts {v} hv := by
    simp only [readNodeId_draft_eq_ok_iff hv, isId_iff, exists_nullable_iff]
  writes {v} hv id h := by
    rcases (readNodeId_draft_eq_ok_iff hv).1 h with ⟨rfl, rfl⟩ | ⟨i, hi, rfl⟩
    · rfl
    · exact json_of_ofJson? hi

theorem readOrder_draft_eq_ok_iff {v : Json} {order : Option Int64} :
    readOrder v.draft = .ok order ↔
      (v = .null ∧ order = none) ∨ ∃ i : Int64, v = Json.ofInt i.toInt ∧ order = some i := by
  cases v with
  | null => simp [Json.draft, readOrder, Json.ofInt, eq_comm]
  | number n =>
      cases n with
      | integer m =>
          simp only [Json.draft, readOrder, Json.Number.int64?, Json.ofInt, Json.number.injEq,
            Json.Number.integer.injEq, reduceCtorEq, false_and, false_or,
            ← Decimal.fitInt64?_eq_some_iff]
          cases Decimal.fitInt64? m <;> simp [eq_comm]
      | float bits => simp [Json.draft, readOrder, Json.Number.int64?, Json.ofInt]
  | _ => simp [Json.draft, readOrder, Json.ofInt]

theorem saves_order :
    Saves readOrder (fun order => (order.map fun i => Json.ofInt i.toInt).getD .null)
      (fun v => v = .null ∨ IsOrder v) id where
  accepts {v} hv := by
    simp only [readOrder_draft_eq_ok_iff, IsOrder, exists_nullable_iff]
  writes {v} hv order h := by
    rcases readOrder_draft_eq_ok_iff.1 h with ⟨rfl, rfl⟩ | ⟨i, rfl, rfl⟩
    · rfl
    · rfl

theorem NodeId.json_ne_null (id : NodeId) : id.json ≠ .null := by
  intro hnull
  have hid := NodeId.ofJson?_json id
  rw [hnull] at hid
  cases hid

/-- What is never written as `null` is left out where it was missing or `null`. -/
theorem unlessNull_write {α : Type} {write : α → Json} (hwrite : ∀ a, write a ≠ .null)
    {field : Option (Option α)} {v? : Option Json}
    (h : field.map (fun a? => (a?.map write).getD .null) = v?) :
    (field.getD none).map write = unlessNull v? := by
  subst h
  match field with
  | none | some none => rfl
  | some (some a) =>
      simp only [Option.getD_some, Option.map_some]
      cases hjson : write a with
      | null => exact absurd hjson (hwrite a)
      | _ => rfl

/-! ### Slots -/

theorem readSlot_draft_eq_ok_iff {v : Json} {s : Slot} :
    readSlot v.draft = .ok s ↔ ∃ fs, v = .object fs ∧
      readOnly readText "name" none (Json.draftFields fs) = .ok (some s.name) ∧
      readOthers Slot.known .empty (Json.draftFields fs) = .ok s.extra := by
  simp only [readSlot, Except.bind_eq_ok_iff, readObject_draft_eq_ok_iff,
    readFields_slot_eq_ok_iff]
  constructor
  · rintro ⟨fields, ⟨fs, rfl, hname, hextra⟩, hs⟩
    split at hs
    · next name heq =>
      cases hs
      exact ⟨fs, rfl, heq ▸ hname, hextra⟩
    · cases hs
  · rintro ⟨fs, rfl, hname, hextra⟩
    exact ⟨⟨some s.name, s.extra⟩, ⟨fs, rfl, hname, hextra⟩, rfl⟩

theorem saves_slot : Saves readSlot Slot.json IsSlot normalSlot where
  accepts {v} hv := by
    simp only [readSlot_draft_eq_ok_iff]
    constructor
    · rintro ⟨s, fs, rfl, hname, -⟩
      exact ⟨⟨fs, rfl⟩, (saves_text.accepts_given hv).1 ⟨s.name, hname⟩⟩
    · rintro ⟨⟨fs, rfl⟩, hname⟩
      obtain ⟨name, hname⟩ := (saves_text.accepts_given hv).2 hname
      obtain ⟨extra, hextra⟩ := exists_readOthers hv
      exact ⟨⟨name, extra⟩, fs, rfl, hname, hextra⟩
  writes {v} hv s h := by
    obtain ⟨fs, rfl, hname, hextra⟩ := readSlot_draft_eq_ok_iff.1 h
    have hname' := saves_text.writes_field hv hname
    rw [Option.map_id, id_eq] at hname'
    rw [Slot.json, normalSlot, (readOthers_draftFields_eq_ok_iff hv).1 hextra, ← hname']
    rfl

/-! ### Nodes -/

/-- A missing list is read as the empty one. -/
theorem write_getD {α : Type} {write : α → Json} {as? : Option (List α)} {v? : Option Json}
    (h : as?.map (fun as => Json.array (as.map write)) = v?) :
    Json.array ((as?.getD []).map write) = v?.getD (.array []) := by
  subst h
  cases as? with
  | none => rfl
  | some as => rfl

/-- What is read of the fields of a node. -/
structure ReadsNode (fs : List (String × Json)) (n : NodeFields) : Prop where
  type : readOnly readText "type" none (Json.draftFields fs) = .ok n.type
  id : readOnly readNodeId "id" none (Json.draftFields fs) = .ok n.id
  order : readOnly readOrder "order" none (Json.draftFields fs) = .ok n.order
  slots : readOnly (readList readSlot) "inputs" none (Json.draftFields fs) = .ok n.slots
  values : readOnly (readList readValue) "widgets_values" none (Json.draftFields fs) = .ok n.values
  extra : readOthers Node.known .empty (Json.draftFields fs) = .ok n.extra

theorem readNode_draft_eq_ok_iff {v : Json} {n : Node} :
    readNode v.draft = .ok n ↔ ∃ fs fields, v = .object fs ∧ ReadsNode fs fields ∧
      fields.type = some n.type ∧ n = ⟨n.type, fields.id.getD none, fields.order.getD none,
        fields.slots.getD [], fields.values.getD [], fields.extra⟩ := by
  simp only [readNode, Except.bind_eq_ok_iff, readObject_draft_eq_ok_iff,
    readFields_node_eq_ok_iff]
  constructor
  · rintro ⟨fields, ⟨fs, rfl, htype, hid, horder, hslots, hvalues, hextra⟩, hn⟩
    split at hn
    · next type heq =>
      cases hn
      exact ⟨fs, fields, rfl, ⟨htype, hid, horder, hslots, hvalues, hextra⟩, heq, rfl⟩
    · cases hn
  · rintro ⟨fs, fields, rfl, h, htype, hn⟩
    refine ⟨fields, ⟨fs, rfl, h.type, h.id, h.order, h.slots, h.values, h.extra⟩, ?_⟩
    rw [hn, htype]
    rfl

theorem saves_node : Saves readNode Node.json IsNode normalNode where
  accepts {v} hv := by
    simp only [readNode_draft_eq_ok_iff]
    constructor
    · rintro ⟨n, fs, fields, rfl, h, htype, -⟩
      exact {
        object := ⟨fs, rfl⟩
        type := (saves_text.accepts_given hv).1 ⟨n.type, htype ▸ h.type⟩
        id := (saves_nodeId.accepts_field hv).1 ⟨_, h.id⟩
        order := (saves_order.accepts_field hv).1 ⟨_, h.order⟩
        inputs := (saves_slot.list.accepts_field hv).1 ⟨_, h.slots⟩
        values := (saves_value.list.accepts_field hv).1 ⟨_, h.values⟩ }
    · rintro ⟨⟨fs, rfl⟩, htype, hid, horder, hinputs, hvalues⟩
      obtain ⟨type, htype⟩ := (saves_text.accepts_given hv).2 htype
      obtain ⟨id, hid⟩ := (saves_nodeId.accepts_field hv).2 hid
      obtain ⟨order, horder⟩ := (saves_order.accepts_field hv).2 horder
      obtain ⟨slots, hslots⟩ := (saves_slot.list.accepts_field hv).2 hinputs
      obtain ⟨values, hvalues⟩ := (saves_value.list.accepts_field hv).2 hvalues
      obtain ⟨extra, hextra⟩ := exists_readOthers hv
      exact ⟨⟨type, id.getD none, order.getD none, slots.getD [], values.getD [], extra⟩, fs,
        ⟨some type, id, order, slots, values, extra⟩, rfl,
        ⟨htype, hid, horder, hslots, hvalues, hextra⟩, rfl, rfl⟩
  writes {v} hv n hread := by
    obtain ⟨fs, fields, rfl, h, htype, hn⟩ := readNode_draft_eq_ok_iff.1 hread
    have htype' := saves_text.writes_field hv h.type
    have hid := unlessNull_write NodeId.json_ne_null (saves_nodeId.writes_field hv h.id)
    have horder := unlessNull_write (fun _ => Json.noConfusion)
      (saves_order.writes_field hv h.order)
    have hslots := write_getD (saves_slot.list.writes_field hv h.slots)
    have hvalues := write_getD (saves_value.list.writes_field hv h.values)
    have hextra := (readOthers_draftFields_eq_ok_iff hv).1 h.extra
    rw [Option.map_id, id_eq] at htype' horder
    rw [normalItems_id, Option.map_id, id_eq, List.map_id] at hvalues
    obtain ⟨type, id, order, slots, values, extra⟩ := n
    cases hn
    rw [Node.json, normalNode, ← htype', htype, hid, horder, hslots, hvalues, hextra]
    rfl

/-! ### Links -/

theorem readLinkSlot_eq_ok_iff {v : Json} {i : UInt64} :
    readLinkSlot v = .ok i ↔ v = Json.ofInt i.toNat := by
  cases v with
  | number n =>
      cases n with
      | integer m =>
          simp only [readLinkSlot, Json.Number.uint64?, Json.ofInt, Json.number.injEq,
            Json.Number.integer.injEq, ← Decimal.fitUInt64?_eq_some_iff]
          cases Decimal.fitUInt64? m <;> simp
      | float bits => simp [readLinkSlot, Json.Number.uint64?, Json.ofInt]
  | _ => simp [readLinkSlot, Json.ofInt]

theorem readLinkNode_eq_ok_iff {v : Json} {id : NodeId} :
    readLinkNode v = .ok id ↔ NodeId.ofJson? v = some id := by
  rw [readLinkNode]
  cases NodeId.ofJson? v <;> simp

theorem readLinkEntries_eq_ok_iff {id : Option Json} {a b c d e : Json} {l : Link} :
    readLinkEntries id a b c d e = .ok l ↔ l.id = id ∧ NodeId.ofJson? a = some l.fromNode ∧
      b = Json.ofInt l.fromSlot.toNat ∧ NodeId.ofJson? c = some l.toNode ∧
      d = Json.ofInt l.toSlot.toNat ∧ l.typeTag = e := by
  simp only [readLinkEntries, Except.bind_eq_ok_iff, readLinkNode_eq_ok_iff,
    readLinkSlot_eq_ok_iff]
  constructor
  · rintro ⟨fromNode, hfrom, fromSlot, hsource, toNode, hto, toSlot, htarget, ⟨⟩⟩
    exact ⟨rfl, hfrom, hsource, hto, htarget, rfl⟩
  · rintro ⟨rfl, hfrom, hsource, hto, htarget, rfl⟩
    exact ⟨_, hfrom, _, hsource, _, hto, _, htarget, rfl⟩

/-- Whether the five entries of a link are read does not depend on its id. -/
theorem exists_readLinkEntries_iff {id : Option Json} {a b c d e : Json} :
    (∃ l, readLinkEntries id a b c d e = .ok l) ↔ IsId a ∧ IsIndex b ∧ IsId c ∧ IsIndex d := by
  simp only [readLinkEntries_eq_ok_iff, isId_iff, IsIndex]
  constructor
  · rintro ⟨l, -, ha, hb, hc, hd, -⟩
    exact ⟨⟨_, ha⟩, ⟨_, hb⟩, ⟨_, hc⟩, ⟨_, hd⟩⟩
  · rintro ⟨⟨source, ha⟩, ⟨fromSlot, hb⟩, ⟨target, hc⟩, ⟨toSlot, hd⟩⟩
    exact ⟨⟨id, source, fromSlot, target, toSlot, e⟩, rfl, ha, hb, hc, hd, rfl⟩

theorem json_of_readLinkEntries {id : Option Json} {a b c d e : Json} {l : Link}
    (h : readLinkEntries id a b c d e = .ok l) :
    l.json = .array (id.toList ++ [normalId a, b, normalId c, d, e]) := by
  obtain ⟨rfl, ha, rfl, hc, rfl, rfl⟩ := readLinkEntries_eq_ok_iff.1 h
  rw [Link.json, json_of_ofJson? ha, json_of_ofJson? hc]

theorem readLink_draft_eq_ok_iff {v : Json} (hv : v.WellFormed) {l : Link} :
    readLink v.draft = .ok l ↔ ∃ entries, v = .array entries ∧ readLinkParts entries = .ok l := by
  cases v with
  | array entries =>
      rw [readLink, readList_readValue_draft (Json.wellFormed_array_iff.1 hv), Except.ok_bind]
      simp
  | _ => simp [readLink, Json.draft, readList, Except.bind_eq_ok_iff]

theorem saves_link : Saves readLink Link.json IsLink normalLink where
  accepts {v} hv := by
    simp only [readLink_draft_eq_ok_iff hv]
    constructor
    · rintro ⟨l, entries, rfl, hl⟩
      unfold readLinkParts at hl
      split at hl
      · obtain ⟨ha, hb, hc, hd⟩ := exists_readLinkEntries_iff.1 ⟨l, hl⟩
        exact .five ha hb hc hd _
      · obtain ⟨ha, hb, hc, hd⟩ := exists_readLinkEntries_iff.1 ⟨l, hl⟩
        exact .six _ ha hb hc hd _
      · cases hl
    · rintro (⟨ha, hb, hc, hd, e⟩ | ⟨id, ha, hb, hc, hd, e⟩)
      · obtain ⟨l, hl⟩ := exists_readLinkEntries_iff.2 ⟨ha, hb, hc, hd⟩
        exact ⟨l, _, rfl, hl⟩
      · obtain ⟨l, hl⟩ := exists_readLinkEntries_iff.2 ⟨ha, hb, hc, hd⟩
        exact ⟨l, _, rfl, hl⟩
  writes {v} hv l h := by
    obtain ⟨entries, rfl, hl⟩ := (readLink_draft_eq_ok_iff hv).1 h
    unfold readLinkParts at hl
    split at hl
    · exact json_of_readLinkEntries hl
    · exact json_of_readLinkEntries hl
    · cases hl

/-! ### Graphs -/

/-- What is read of the fields of a graph. -/
structure ReadsGraph (fs : List (String × Json)) (g : GraphFields) : Prop where
  nodes : readOnly (readList readNode) "nodes" none (Json.draftFields fs) = .ok g.nodes
  links : readOnly (readList readLink) "links" none (Json.draftFields fs) = .ok g.links
  extra : readOthers known .empty (Json.draftFields fs) = .ok g.extra

theorem ofDraft_draft_eq_ok_iff {v : Json} {g : Graph} :
    ofDraft v.draft = .ok g ↔ ∃ fs fields, v = .object fs ∧ ReadsGraph fs fields ∧
      g = ⟨fields.nodes.getD [], fields.links.getD [], fields.extra⟩ := by
  simp only [ofDraft, Except.bind_eq_ok_iff, readObject_draft_eq_ok_iff,
    readFields_graph_eq_ok_iff]
  constructor
  · rintro ⟨fields, ⟨fs, rfl, hnodes, hlinks, hextra⟩, ⟨⟩⟩
    exact ⟨fs, fields, rfl, ⟨hnodes, hlinks, hextra⟩, rfl⟩
  · rintro ⟨fs, fields, rfl, h, rfl⟩
    exact ⟨fields, ⟨fs, rfl, h.nodes, h.links, h.extra⟩, rfl⟩

theorem saves_graph : Saves ofDraft json IsGraph normal where
  accepts {v} hv := by
    simp only [ofDraft_draft_eq_ok_iff]
    constructor
    · rintro ⟨g, fs, fields, rfl, h, -⟩
      exact {
        object := ⟨fs, rfl⟩
        nodes := (saves_node.list.accepts_field hv).1 ⟨_, h.nodes⟩
        links := (saves_link.list.accepts_field hv).1 ⟨_, h.links⟩ }
    · rintro ⟨⟨fs, rfl⟩, hnodes, hlinks⟩
      obtain ⟨nodes, hnodes⟩ := (saves_node.list.accepts_field hv).2 hnodes
      obtain ⟨links, hlinks⟩ := (saves_link.list.accepts_field hv).2 hlinks
      obtain ⟨extra, hextra⟩ := exists_readOthers hv
      exact ⟨_, fs, ⟨nodes, links, extra⟩, rfl, ⟨hnodes, hlinks, hextra⟩, rfl⟩
  writes {v} hv g hread := by
    obtain ⟨fs, fields, rfl, h, rfl⟩ := ofDraft_draft_eq_ok_iff.1 hread
    have hnodes := write_getD (saves_node.list.writes_field hv h.nodes)
    have hlinks := write_getD (saves_link.list.writes_field hv h.links)
    rw [json, normal, hnodes, hlinks, (readOthers_draftFields_eq_ok_iff hv).1 h.extra]

/-- Exactly the values of the format are read as graphs. What was read of one is written as the
normal form of the value, and reading the normal form gives the same graph. The id of a node, in
its own field and at the ends of links, is saved as a number where its text is the usual numeral of
a 64-bit number, and else as its text. -/
theorem ofJson_accepts_and_normalizes {v : Json} (hv : v.WellFormed) :
    ((∃ g, ofJson v = .ok g) ↔ IsGraph v) ∧
    (∀ g, ofJson v = .ok g → g.json = normal v ∧ ofJson (normal v) = .ok g) ∧
    (∀ n : Int64, normalText (toString n.toInt) = Json.ofInt n.toInt) ∧
    ∀ text : String, (∀ n : Int64, text ≠ toString n.toInt) → normalText text = .string text := by
  refine ⟨saves_graph.accepts hv, fun g hg => ?_, normalText_toString, fun _ => normalText_of_ne⟩
  have hjson : g.json = normal v := saves_graph.writes hv hg
  have hread : ofJson g.json = .ok g := ofJson_json_of_clean (clean_of_ofDraft hg)
  exact ⟨hjson, hjson ▸ hread⟩

/-- A saved graph in no particular order: one node has no id and a field of the editor, the other
one has a numeral as its id, and the link between them has the id `null`. -/
def looseValue : Json := .object [
  ("version", Json.ofInt 4),
  ("links", .array [.array
    [.null, Json.ofInt 0, Json.ofInt 0, .string "7", Json.ofInt 0, .string "INT"]]),
  ("nodes", .array [
    .object [("id", .null), ("title", .string "in"), ("type", .string "relay")],
    .object [("inputs", .array [.object [("link", Json.ofInt 1), ("name", .string "value")]]),
      ("id", .string "7"), ("type", .string "relay")]])]

/-- What is read of it. -/
def looseGraph : Graph where
  nodes := [
    ⟨"relay", none, none, [], [], .ofList [("title", .string "in")]⟩,
    ⟨"relay", some ⟨"7"⟩, none, [⟨"value", .ofList [("link", Json.ofInt 1)]⟩], [], .empty⟩]
  links := [⟨some .null, ⟨"0"⟩, 0, ⟨"7"⟩, 0, .string "INT"⟩]
  extra := .ofList [("version", Json.ofInt 4)]

theorem looseValue_normalized :
    looseValue.WellFormed ∧ IsGraph looseValue ∧ looseGraph.json = normal looseValue ∧
      ofJson (normal looseValue) = .ok looseGraph := by
  have hv : looseValue.WellFormed := Draft.wellFormed_of_value?
    (show looseValue.draft.value? = some looseValue by decide +kernel)
  have hread : ofJson looseValue = .ok looseGraph := Except.eq_ok_of_toOption (by decide +kernel)
  obtain ⟨haccepts, hnormal, -⟩ := ofJson_accepts_and_normalizes hv
  exact ⟨hv, haccepts.1 ⟨_, hread⟩, hnormal _ hread⟩

end StepGraph.Graph
