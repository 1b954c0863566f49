import StepGraph.Directive.Reading
import StepGraph.Directive.Writing
import StepGraph.Proofs.Saving.Drafts

/-!
# Directives are restored from their records

The writer leaves out what a directive does not say, and the lenient reader takes each part of a
record by itself. Every part that was written is read as what it was, and a part that was left out
is read as what is not said, so the record of a directive gives the directive back.
-/

namespace StepGraph.Directive

/-! ## The fields of a record -/

@[simp] theorem find?_fieldOf (key k : String) (v? : Option Json) :
    Entries.find? k (fieldOf key v?) = if key = k then v? else none := by
  cases v? with
  | none => simp [fieldOf]
  | some v => simp [fieldOf, Entries.find?_cons]

/-- The value under which a map is written, if it is not empty. -/
def mapValue? {α : Type} (value : α → Json) (m : OrderedMap String α) : Option Json :=
  if m.isEmpty then none else some (.object (m.entries.map fun e => (e.1, value e.2)))

theorem mapField_eq {α : Type} (key : String) (value : α → Json) (m : OrderedMap String α) :
    mapField key value m = fieldOf key (mapValue? value m) := by
  rw [mapField, mapValue?]
  split
  · rfl
  · rfl

/-- What a directive says and under which keys. -/
def parts (d : Directive) : List (String × Option Json) := [
  ("display_name", d.displayName.map .string),
  ("workflow", some (.string d.workflow)),
  ("category", d.category.map .string),
  ("export_outputs", d.exportOutputs.map texts),
  ("rename_outputs", mapValue? .string d.renameOutputs),
  ("merge_inputs", mapValue? texts d.mergeInputs),
  ("rename_inputs", mapValue? .string d.renameInputs)]

theorem json_eq (d : Directive) : d.json = .object (d.parts.flatMap fun p => fieldOf p.1 p.2) := by
  simp only [json, mapField_eq, parts, List.flatMap_cons, List.flatMap_nil, List.append_nil,
    List.append_assoc]
  rfl

/-! ## Reading the fields -/

theorem bind_scalarText?_map (s? : Option String) : (s?.map Json.string).bind scalarText? = s? := by
  cases s? <;> rfl

theorem readTexts_map (ss : List String) : readTexts (ss.map .string) = ss := by
  rw [readTexts, List.filterMap_map]
  exact List.filterMap_some

theorem readExports_map (keys? : Option (List String)) :
    readExports (keys?.map texts) = keys? := by
  cases keys? with
  | none => rfl
  | some keys => exact congrArg some (readTexts_map keys)

section

variable {α : Type} {value : α → Json}

/-- The pairs of a map that were written are read in their order. -/
theorem ofList_filterMap {read : Json → Option α} (h : ∀ a, read (value a) = some a)
    (m : OrderedMap String α) :
    OrderedMap.ofList ((m.entries.map fun e => (e.1, value e.2)).filterMap fun e =>
      (read e.2).map fun a => (e.1, a)) = m := by
  have hread : ((fun e => (read e.2).map fun a => (e.1, a)) ∘ fun e : String × α =>
      (e.1, value e.2)) = some := funext fun e => by simp [h]
  rw [List.filterMap_map, hread, List.filterMap_some]
  exact OrderedMap.ext_entries (OrderedMap.entries_ofList_of_nodup m.nodup_keys)

theorem eq_empty_of_isEmpty {m : OrderedMap String α} (h : m.isEmpty = true) : m = .empty :=
  OrderedMap.ext_entries (List.isEmpty_iff.1 h)

end

theorem readRenames_mapValue? (m : OrderedMap String String) :
    readRenames (mapValue? .string m) = m := by
  rw [mapValue?]
  split
  · next h => exact (eq_empty_of_isEmpty h).symm
  · have hread : ∀ s, scalarText? (.string s) = some s := fun _ => rfl
    exact ofList_filterMap hread m

theorem readMerges_mapValue? (m : OrderedMap String (List String)) :
    readMerges (mapValue? texts m) = m := by
  rw [mapValue?]
  split
  · next h => exact (eq_empty_of_isEmpty h).symm
  · have hread : ∀ sources, readSources? (texts sources) = some sources := fun sources =>
      congrArg some (readTexts_map sources)
    exact ofList_filterMap hread m

theorem ofJson?_json (d : Directive) : ofJson? d.json = some d := by
  rw [json_eq]
  simp [parts, ofJson?, Json.field?, Entries.find?_append, bind_scalarText?_map, readExports_map,
    readRenames_mapValue?, readMerges_mapValue?]

/-! ## Records repeat no key -/

theorem keys_flatMap_sublist (parts : List (String × Option Json)) :
    (Entries.keys (parts.flatMap fun p => fieldOf p.1 p.2)).Sublist (parts.map Prod.fst) := by
  induction parts with
  | nil => exact List.Sublist.refl _
  | cons p parts ih =>
      obtain ⟨key, v?⟩ := p
      rw [List.flatMap_cons, Entries.keys, List.map_append, List.map_cons]
      cases v? with
      | none => exact ih.cons key
      | some v => exact ih.cons_cons key

theorem mem_fieldOf {key : String} {v? : Option Json} {f : String × Json}
    (h : f ∈ fieldOf key v?) : f.2 ∈ v? := by
  cases v? with
  | none => cases h
  | some v =>
      rw [List.mem_singleton.1 h]
      rfl

theorem wellFormed_texts (ss : List String) : (texts ss).WellFormed :=
  Json.wellFormed_array_iff.2 (List.forall_mem_map.2 fun _ _ => trivial)

theorem wellFormed_mapValue? {α : Type} {value : α → Json} (h : ∀ a, (value a).WellFormed)
    (m : OrderedMap String α) : ∀ v ∈ mapValue? value m, v.WellFormed := by
  intro v hv
  rw [mapValue?] at hv
  split at hv
  · cases hv
  · cases hv
    refine Json.wellFormed_object_iff.2 ⟨?_, List.forall_mem_map.2 fun e _ => h e.2⟩
    rw [Entries.keys, List.map_map]
    exact m.nodup_keys

theorem wellFormed_of_mem_parts (d : Directive) :
    ∀ p ∈ d.parts, ∀ v ∈ p.2, v.WellFormed := by
  have htext : ∀ s? : Option String, ∀ v ∈ s?.map Json.string, v.WellFormed := by
    intro s? v hv
    obtain ⟨s, -, rfl⟩ := Option.map_eq_some_iff.1 hv
    trivial
  have hexports : ∀ v ∈ d.exportOutputs.map texts, v.WellFormed := by
    intro v hv
    obtain ⟨keys, -, rfl⟩ := Option.map_eq_some_iff.1 hv
    exact wellFormed_texts keys
  have hnames : ∀ m, ∀ v ∈ mapValue? Json.string m, v.WellFormed :=
    wellFormed_mapValue? fun _ => trivial
  have hmerges : ∀ m, ∀ v ∈ mapValue? texts m, v.WellFormed :=
    wellFormed_mapValue? wellFormed_texts
  simp only [parts, List.forall_mem_cons]
  exact ⟨htext _, htext (some _), htext _, hexports, hnames _, hmerges _, hnames _,
    List.forall_mem_nil _⟩

theorem wellFormed_json (d : Directive) : d.json.WellFormed := by
  have hkeys : (d.parts.map Prod.fst).Nodup := by simp [parts]
  rw [json_eq]
  refine Json.wellFormed_object_iff.2 ⟨(keys_flatMap_sublist d.parts).nodup hkeys, ?_⟩
  intro f hf
  obtain ⟨p, hp, hf⟩ := List.mem_flatMap.1 hf
  exact d.wellFormed_of_mem_parts p hp f.2 (mem_fieldOf hf)

/-- The record of a directive repeats no key and is read as the directive. So what was read of any
record is read again of the record that it is written as. -/
theorem record_restored :
    (∀ d : Directive, d.json.WellFormed ∧ ofJson? d.json = some d) ∧
    ∀ record : Json, (ofJson? record).bind (fun d => ofJson? d.json) = ofJson? record := by
  refine ⟨fun d => ⟨d.wellFormed_json, ofJson?_json d⟩, fun record => ?_⟩
  cases ofJson? record with
  | none => rfl
  | some d => exact ofJson?_json d

end StepGraph.Directive
