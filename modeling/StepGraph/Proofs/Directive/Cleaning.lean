import Mathlib.Data.List.Forall2
import StepGraph.Directive.Reading
import StepGraph.Proofs.Saving.Drafts

/-!
# Malformed parts of a record drop only themselves

A record may hold parts that say nothing to a directive: fields that are not known, values of the
wrong kind, and such values inside the lists and objects of a field. `cleaned` deletes these parts
and nothing else. What is left says a directive, in that nothing in it is passed over: `Says` names
for each part of a directive the part of the record that it is read from. A usable record is read
as the directive that its clean form says.
-/

namespace StepGraph

/-- Functions that drop the same items of a list leave lists that are related item by item. -/
theorem forall₂_filterMap {α β γ : Type} {r : β → γ → Prop} {f : α → Option β} {g : α → Option γ}
    (h : ∀ a, Option.Rel r (f a) (g a)) (as : List α) :
    List.Forall₂ r (as.filterMap f) (as.filterMap g) := by
  have hrel : ∀ ⦃a b⦄, a = b → Option.Rel r (f a) (g b) := fun a _ hab => hab ▸ h a
  exact List.rel_filterMap hrel (List.forall₂_same.2 fun _ _ => rfl)

theorem rel_map {α β γ δ : Type} {r : α → β → Prop} {t : γ → δ → Prop} {f : α → γ} {g : β → δ}
    {x : Option α} {y : Option β} (h : Option.Rel r x y) (hrt : ∀ {a b}, r a b → t (f a) (g b)) :
    Option.Rel t (x.map f) (y.map g) := by
  cases h with
  | none => exact .none
  | some h => exact .some (hrt h)

theorem rel_bind {α β γ : Type} {r : β → γ → Prop} {f : α → Option β} {g : α → Option γ}
    (h : ∀ a, Option.Rel r (f a) (g a)) (x : Option α) : Option.Rel r (x.bind f) (x.bind g) := by
  cases x with
  | none => exact .none
  | some a => exact h a

theorem filterMap_eq_of_forall₂ {α β : Type} {f : α → Option β} {as : List α} {bs : List β}
    (h : List.Forall₂ (fun a b => f a = some b) as bs) : as.filterMap f = bs := by
  induction h with
  | nil => rfl
  | cons hab _ ih => rw [List.filterMap_cons, hab, ih]

namespace Directive

/-! ## Deleting malformed parts -/

/-- The value itself if it is a text, a number or a truth value. -/
def cleanScalar? : Json → Option Json
  | .string s => some (.string s)
  | .number n => some (.number n)
  | .bool b => some (.bool b)
  | _ => none

/-- A list without the items that are not scalar; nothing is left of other values. -/
def cleanTexts? : Json → Option Json
  | .array items => some (.array (items.filterMap cleanScalar?))
  | _ => none

/-- The sources of a merge: a list, of which the scalars are left, or one scalar. -/
def cleanSources? : Json → Option Json
  | .array items => some (.array (items.filterMap cleanScalar?))
  | v => cleanScalar? v

/-- An object with its values cleaned, without those of which nothing is left. -/
def cleanEntries? (clean? : Json → Option Json) : Json → Option Json
  | .object fields => some (.object (fields.filterMap fun e => (clean? e.2).map fun v => (e.1, v)))
  | _ => none

/-- What is left of a field of a record. -/
def cleanPart? (key : String) (v : Json) : Option Json :=
  if key = "workflow" then some v
  else if key = "display_name" ∨ key = "category" then cleanScalar? v
  else if key = "export_outputs" then cleanTexts? v
  else if key = "rename_outputs" ∨ key = "rename_inputs" then cleanEntries? cleanScalar? v
  else if key = "merge_inputs" then cleanEntries? cleanSources? v
  else none

/-- The record without its malformed and unknown parts. -/
def cleaned : Json → Json
  | .object fields =>
    .object (fields.filterMap fun e => (cleanPart? e.1 e.2).map fun v => (e.1, v))
  | v => v

/-! ## What a record says -/

/-- The scalar stands for the text. -/
inductive StandsFor : Json → String → Prop
  | string (s : String) : StandsFor (.string s) s
  | number (n : Json.Number) : StandsFor (.number n) n.text
  | true : StandsFor (.bool true) "true"
  | false : StandsFor (.bool false) "false"

/-- The items of the list stand for the texts, one for each. -/
inductive Lists : Json → List String → Prop
  | list {items : List Json} {texts : List String} (h : List.Forall₂ StandsFor items texts) :
    Lists (.array items) texts

/-- The value is a list of the sources, or stands for the only one. -/
inductive NamesSources : Json → List String → Prop
  | list {v : Json} {sources : List String} (h : Lists v sources) : NamesSources v sources
  | one {v : Json} {source : String} (h : StandsFor v source) : NamesSources v [source]

/-- The fields of an object are those of the map, in the same order. Without an object the map is
empty. -/
inductive SaysEntries {α : Type} (r : Json → α → Prop) : Option Json → OrderedMap String α → Prop
  | nothing : SaysEntries r none .empty
  | object {fields : List (String × Json)} {m : OrderedMap String α}
    (h : List.Forall₂ (fun f e => f.1 = e.1 ∧ r f.2 e.2) fields m.entries) :
    SaysEntries r (some (.object fields)) m

/-- The fields that say something. -/
def knownFields : List String := [
  "display_name", "workflow", "category", "export_outputs", "rename_outputs", "merge_inputs",
  "rename_inputs"]

/-- The record says the directive, the whole directive and nothing else. -/
structure Says (record : Json) (d : Directive) : Prop where
  known : ∃ fields, record = .object fields ∧ ∀ key ∈ Entries.keys fields, key ∈ knownFields
  workflow : record.field? "workflow" = some (.string d.workflow)
  displayName : Option.Rel StandsFor (record.field? "display_name") d.displayName
  category : Option.Rel StandsFor (record.field? "category") d.category
  exportOutputs : Option.Rel Lists (record.field? "export_outputs") d.exportOutputs
  renameOutputs : SaysEntries StandsFor (record.field? "rename_outputs") d.renameOutputs
  mergeInputs : SaysEntries NamesSources (record.field? "merge_inputs") d.mergeInputs
  renameInputs : SaysEntries StandsFor (record.field? "rename_inputs") d.renameInputs

/-! ## Reading what is left -/

theorem rel_cleanScalar? (v : Json) : Option.Rel StandsFor (cleanScalar? v) (scalarText? v) := by
  cases v with
  | string s => exact .some (.string s)
  | number n => exact .some (.number n)
  | bool b =>
      cases b with
      | true => exact .some .true
      | false => exact .some .false
  | _ => exact .none

theorem lists_readTexts (items : List Json) :
    Lists (.array (items.filterMap cleanScalar?)) (readTexts items) :=
  .list (forall₂_filterMap rel_cleanScalar? items)

theorem rel_cleanTexts? (v? : Option Json) :
    Option.Rel Lists (v?.bind cleanTexts?) (readExports v?) := by
  cases v? with
  | none => exact .none
  | some v =>
      cases v with
      | array items => exact .some (lists_readTexts items)
      | _ => exact .none

/-- One scalar is the list of one source that it stands for. -/
theorem rel_cleanSource? (v : Json) :
    Option.Rel NamesSources (cleanScalar? v) ((scalarText? v).map fun s => [s]) := by
  have hrel := rel_map (rel_cleanScalar? v) (fun h => NamesSources.one h)
  rwa [Option.map_id'] at hrel

theorem rel_cleanSources? (v : Json) :
    Option.Rel NamesSources (cleanSources? v) (readSources? v) := by
  have hone := rel_cleanSource? v
  cases v with
  | array items => exact .some (.list (lists_readTexts items))
  | _ => exact hone

section

variable {α : Type} {clean? : Json → Option Json} {read : Json → Option α} {r : Json → α → Prop}

/-- The fields of an object whose values are read. -/
def readEntries (read : Json → Option α) : Option Json → OrderedMap String α
  | some (.object fields) => .ofList (fields.filterMap fun e => (read e.2).map fun a => (e.1, a))
  | _ => .empty

/-- The entries that are left of an object are those that are read of it. -/
theorem saysEntries_readEntries (h : ∀ v, Option.Rel r (clean? v) (read v)) {v? : Option Json}
    (hv : ∀ v ∈ v?, v.WellFormed) :
    SaysEntries r (v?.bind (cleanEntries? clean?)) (readEntries read v?) := by
  cases v? with
  | none => exact .nothing
  | some v =>
      cases v with
      | object fields =>
          have hkeys := (Json.wellFormed_object_iff.1 (hv _ rfl)).1
          have hread : (Entries.keys
              (fields.filterMap fun e => (read e.2).map fun a => (e.1, a))).Nodup :=
            (OrderedMap.filterMap (fun _ => read) ⟨fields, hkeys⟩).nodup_keys
          have hentry : ∀ e : String × Json,
              Option.Rel (fun (f : String × Json) (e : String × α) => f.1 = e.1 ∧ r f.2 e.2)
                ((clean? e.2).map fun v => (e.1, v)) ((read e.2).map fun a => (e.1, a)) :=
            fun e => rel_map (h e.2) fun hr => ⟨rfl, hr⟩
          refine .object ?_
          rw [readEntries, OrderedMap.entries_ofList_of_nodup hread]
          exact forall₂_filterMap hentry fields
      | _ => exact .nothing

end

theorem readRenames_eq (v? : Option Json) : readRenames v? = readEntries scalarText? v? := by
  unfold readRenames readEntries
  rfl

theorem readMerges_eq (v? : Option Json) : readMerges v? = readEntries readSources? v? := by
  unfold readMerges readEntries
  rfl

/-! ## Records -/

/-- Of every field is left what is left of its value, whatever the other fields are. -/
theorem field?_cleaned {record : Json} (h : record.WellFormed) (key : String) :
    (cleaned record).field? key = (record.field? key).bind (cleanPart? key) := by
  cases record with
  | object fields =>
      have hkeys := (Json.wellFormed_object_iff.1 h).1
      exact OrderedMap.find?_filterMap cleanPart? ⟨fields, hkeys⟩ key
  | _ => rfl

theorem mem_knownFields_of_cleanPart? {key : String} {v v' : Json}
    (h : cleanPart? key v = some v') : key ∈ knownFields := by
  unfold cleanPart? at h
  simp only [knownFields, List.mem_cons]
  split_ifs at h <;> tauto

theorem wellFormed_of_field? {record : Json} (h : record.WellFormed) (key : String) :
    ∀ v ∈ record.field? key, v.WellFormed := by
  intro v hv
  cases record with
  | object fields =>
      exact (Json.wellFormed_object_iff.1 h).2 _ (Entries.mem_of_find?_eq_some hv)
  | _ => cases hv

/-- What is left of a record says the directive that is read of it. -/
theorem says_cleaned {record : Json} {d : Directive} (h : record.WellFormed)
    (hd : ofJson? record = some d) : Says (cleaned record) d := by
  have hfield := wellFormed_of_field? h
  unfold ofJson? at hd
  split at hd
  · next workflow hworkflow =>
    cases hd
    constructor
    · cases record with
      | object fields =>
          refine ⟨_, rfl, ?_⟩
          intro key hkey
          obtain ⟨⟨_, v⟩, he, rfl⟩ := List.mem_map.1 hkey
          obtain ⟨e, -, he⟩ := List.mem_filterMap.1 he
          obtain ⟨v', hv', heq⟩ := Option.map_eq_some_iff.1 he
          cases heq
          exact mem_knownFields_of_cleanPart? hv'
      | _ => cases hworkflow
    all_goals rw [field?_cleaned h]
    · rw [hworkflow]
      rfl
    · exact rel_bind rel_cleanScalar? _
    · exact rel_bind rel_cleanScalar? _
    · exact rel_cleanTexts? _
    · rw [readRenames_eq]
      exact saysEntries_readEntries rel_cleanScalar? (hfield _)
    · rw [readMerges_eq]
      exact saysEntries_readEntries rel_cleanSources? (hfield _)
    · rw [readRenames_eq]
      exact saysEntries_readEntries rel_cleanScalar? (hfield _)
  · cases hd

/-! ## Reading what a record says -/

theorem StandsFor.scalarText? {v : Json} {s : String} (h : StandsFor v s) :
    scalarText? v = some s := by
  cases h <;> rfl

theorem Lists.readTexts {v : Json} {texts : List String} (h : Lists v texts) :
    ∃ items, v = .array items ∧ readTexts items = texts := by
  cases h with
  | @list items _ h =>
      exact ⟨items, rfl, filterMap_eq_of_forall₂ (h.imp fun _ _ => StandsFor.scalarText?)⟩

theorem NamesSources.readSources? {v : Json} {sources : List String} (h : NamesSources v sources) :
    readSources? v = some sources := by
  cases h with
  | list h =>
      obtain ⟨items, rfl, rfl⟩ := h.readTexts
      rfl
  | one h => cases h <;> rfl

theorem SaysEntries.readEntries {α : Type} {r : Json → α → Prop} {read : Json → Option α}
    (hread : ∀ v a, r v a → read v = some a) {v? : Option Json} {m : OrderedMap String α}
    (h : SaysEntries r v? m) : readEntries read v? = m := by
  cases h with
  | nothing => rfl
  | @object fields _ h =>
      have hentries : fields.filterMap (fun e => (read e.2).map fun a => (e.1, a)) = m.entries := by
        refine filterMap_eq_of_forall₂ (h.imp fun f e hfe => ?_)
        rw [hread _ _ hfe.2, hfe.1]
        rfl
      rw [Directive.readEntries, hentries]
      exact OrderedMap.ext_entries (OrderedMap.entries_ofList_of_nodup m.nodup_keys)

theorem bind_scalarText?_of_rel {v? : Option Json} {s? : Option String}
    (h : Option.Rel StandsFor v? s?) : v?.bind scalarText? = s? := by
  cases h with
  | none => rfl
  | some h => exact h.scalarText?

theorem readExports_of_rel {v? : Option Json} {texts? : Option (List String)}
    (h : Option.Rel Lists v? texts?) : readExports v? = texts? := by
  cases h with
  | none => rfl
  | some h =>
      obtain ⟨items, rfl, rfl⟩ := h.readTexts
      rfl

/-- A record is read as the directive that it says. -/
theorem ofJson?_of_record {record : Json} {d : Directive} (h : Says record d) :
    ofJson? record = some d := by
  have hrenames : ∀ {v? m}, SaysEntries StandsFor v? m → readRenames v? = m := fun h =>
    (readRenames_eq _).trans (h.readEntries fun _ _ hv => hv.scalarText?)
  have hmerges : ∀ {v? m}, SaysEntries NamesSources v? m → readMerges v? = m := fun h =>
    (readMerges_eq _).trans (h.readEntries fun _ _ hv => hv.readSources?)
  rw [ofJson?, h.workflow]
  simp only [bind_scalarText?_of_rel h.displayName, bind_scalarText?_of_rel h.category,
    readExports_of_rel h.exportOutputs, hrenames h.renameOutputs, hmerges h.mergeInputs,
    hrenames h.renameInputs]

/-- A record is read as nothing exactly if it is no object or has no text under `workflow`. -/
theorem ofJson?_eq_none_iff {record : Json} :
    ofJson? record = none ↔ ∀ workflow, record.field? "workflow" ≠ some (.string workflow) := by
  unfold ofJson?
  split
  · next workflow h => simp [h]
  · next h => exact iff_of_true rfl h

theorem field?_eq_some_iff {record v : Json} {key : String} :
    record.field? key = some v ↔
      ∃ fields, record = .object fields ∧ Entries.find? key fields = some v := by
  cases record <;> simp [Json.field?]

/-- The record with its malformed parts deleted is as usable as before. -/
theorem field?_workflow_cleaned {record : Json} (h : record.WellFormed) :
    (cleaned record).field? "workflow" = record.field? "workflow" := by
  have hkept : cleanPart? "workflow" = some := rfl
  rw [field?_cleaned h, hkept, Option.bind_fun_some]

/-- A record is unusable exactly if it is no object or has no text under `workflow`. A usable record
is read as its clean form is, which says the directive that is read: every part that is left says a
part of it, in the same order. What is left of a field hangs on this field alone. -/
theorem malformed_parts_drop_themselves (record : Json) (h : record.WellFormed) :
    (ofJson? record = none ↔ ¬ ∃ fields workflow, record = .object fields ∧
        Entries.find? "workflow" fields = some (.string workflow)) ∧
      ofJson? record = ofJson? (cleaned record) ∧
      (∀ d, ofJson? record = some d → Says (cleaned record) d) ∧
      ∀ key, (cleaned record).field? key = (record.field? key).bind (cleanPart? key) := by
  refine ⟨?_, ?_, fun d => says_cleaned h, field?_cleaned h⟩
  · rw [ofJson?_eq_none_iff]
    simp only [ne_eq, field?_eq_some_iff, not_exists]
    exact forall_comm
  · cases hd : ofJson? record with
    | some d => exact (ofJson?_of_record (says_cleaned h hd)).symm
    | none =>
        rw [ofJson?_eq_none_iff, ← field?_workflow_cleaned h] at hd
        exact (ofJson?_eq_none_iff.2 hd).symm

/-- A record with malformed parts in every field that may have some. -/
def looseRecord : Json := .object [
  ("display_name", .array []),
  ("rename_inputs", .object [("a", .number (.integer 1)), ("c", .object []), ("b", .string "d")]),
  ("workflow", .string "loose.json"),
  ("category", .bool true),
  ("export_outputs", .array [.string "3 IMAGE", .null, .number (.integer 7)]),
  ("merge_inputs", .object [("x", .string "y"), ("u", .null), ("v", .array [.array [], .string "w"])]),
  ("rename_outputs", .array [.string "no", .string "map"]),
  ("note", .string "no field of a directive")]

theorem looseRecord_malformed_parts_drop :
    looseRecord.WellFormed ∧ ofJson? looseRecord = ofJson? (.object [
      ("rename_inputs", .object [("a", .number (.integer 1)), ("b", .string "d")]),
      ("workflow", .string "loose.json"),
      ("category", .bool true),
      ("export_outputs", .array [.string "3 IMAGE", .number (.integer 7)]),
      ("merge_inputs", .object [("x", .string "y"), ("v", .array [.string "w"])])]) := by
  have hwell : looseRecord.WellFormed := by
    simp [looseRecord, Json.WellFormed, Json.WellFormedFields, Json.WellFormedItems]
  obtain ⟨-, hcleaned, -, -⟩ := malformed_parts_drop_themselves looseRecord hwell
  exact ⟨hwell, hcleaned⟩

end Directive

end StepGraph
