import StepGraph.Graph.Writing
import StepGraph.Proofs.Saving.Clean
import StepGraph.Proofs.Saving.Numeral

/-!
# Reading what was written

Every reader gives back what was written in its form: ids that are the usual numerals of 64-bit
numbers come back from numbers and all others from texts, links with five or six entries, and known
fields before the other ones, which keep their order. So a clean graph is read from its own JSON
form.
-/

namespace StepGraph

open Json (Draft)

/-! ## Numbers and ids -/

theorem NodeId.ofJson?_json (id : NodeId) : ofJson? id.json = some id := by
  rw [json]
  split
  · split
    · next n _ htext =>
      have hnumber : ofJson? (Json.ofInt n.toInt) = some ⟨toString n.toInt⟩ := rfl
      rw [hnumber, htext]
    · rfl
  · rfl

theorem NodeId.wellFormed_json (id : NodeId) : id.json.WellFormed := by
  rw [json]
  split
  · split <;> trivial
  · trivial

namespace Graph

theorem readValue_draft {v : Json} (h : v.WellFormed) : readValue v.draft = .ok v := by
  rw [readValue, Draft.value?_draft h]

theorem readId_json (id : NodeId) : readId id.json = .ok id := by
  rw [readId, NodeId.ofJson?_json]

theorem readLinkNode_json (id : NodeId) : readLinkNode id.json = .ok id := by
  rw [readLinkNode, NodeId.ofJson?_json]

theorem readLinkSlot_ofInt (n : UInt64) : readLinkSlot (Json.ofInt n.toNat) = .ok n := by
  simp only [readLinkSlot, Json.ofInt, Json.Number.uint64?, Decimal.fitUInt64?_toNat]

theorem readOrder_ofInt (n : Int64) : readOrder (Json.ofInt n.toInt).draft = .ok (some n) := by
  simp only [readOrder, Json.ofInt, Json.draft, Json.Number.int64?, Decimal.fitInt64?_toInt]

/-- The id of a node is not `null`. -/
theorem readNodeId_json (id : NodeId) : readNodeId id.json.draft = .ok (some id) := by
  rw [readNodeId, readValue_draft id.wellFormed_json, Except.ok_bind]
  split
  · next hnull =>
    have hid := NodeId.ofJson?_json id
    rw [hnull] at hid
    cases hid
  · rw [readId_json]
    rfl

/-! ## Lists and objects -/

section

variable {α : Type}

theorem readEach_draftItems {read : Draft → Read α} (write : α → Json) {as : List α}
    (h : ∀ a ∈ as, read (write a).draft = .ok a) :
    readEach read (Json.draftItems (as.map write)) = .ok as := by
  induction as with
  | nil => rfl
  | cons a as ih =>
      obtain ⟨ha, has⟩ := List.forall_mem_cons.1 h
      rw [List.map_cons, Json.draftItems, readEach, ha, Except.ok_bind, ih has]
      rfl

theorem readList_draft {read : Draft → Read α} (write : α → Json) {as : List α}
    (h : ∀ a ∈ as, read (write a).draft = .ok a) :
    readList read (Json.array (as.map write)).draft = .ok as := by
  rw [Json.draft, readList, readEach_draftItems write h]
  rfl

theorem readList_readValue_draft {vs : List Json} (h : ∀ v ∈ vs, v.WellFormed) :
    readList readValue (Json.array vs).draft = .ok vs := by
  have hlist := readList_draft id fun v hv => readValue_draft (h v hv)
  rwa [List.map_id] at hlist

variable {read : α → String → Draft → Read α}

theorem readObject_draft (start : α) (fs : List (String × Json)) :
    readObject start read (Json.object fs).draft = readFields read start (Json.draftFields fs) := by
  rw [Json.draft, readObject]
  cases readFields read start (Json.draftFields fs) with
  | error e => rfl
  | ok a => rfl

theorem readFields_append (a : α) (fs gs : List (String × Draft)) :
    readFields read a (fs ++ gs) = readFields read a fs >>= fun a => readFields read a gs := by
  induction fs generalizing a with
  | nil => rfl
  | cons f fs ih =>
      obtain ⟨key, d⟩ := f
      rw [List.cons_append, readFields, readFields]
      cases read a key d with
      | error e => rfl
      | ok b => exact ih b

section

variable {known : List String} (put : OrderedMap String Json → α)
  (hread : ∀ extra key d, key ∉ known →
    read (put extra) key d = readExtra extra key d >>= fun extra => pure (put extra))

include hread

theorem readFields_insertAll {es : List (String × Json)}
    (h : ∀ e ∈ es, e.1 ∉ known ∧ e.2.WellFormed) (before : OrderedMap String Json) :
    readFields read (put before) (Json.draftFields es) = .ok (put (before.insertAll es)) := by
  induction es generalizing before with
  | nil => rfl
  | cons e es ih =>
      obtain ⟨key, v⟩ := e
      obtain ⟨⟨hkey, hv⟩, hrest⟩ := List.forall_mem_cons.1 h
      rw [Json.draftFields, readFields, hread before key v.draft hkey, readExtra,
        readValue_draft hv]
      exact ih hrest (before.insert key v)

/-- Other fields than the known ones are kept as they are. -/
theorem readFields_extra {extra : OrderedMap String Json} (h : CleanExtra known extra) :
    readFields read (put .empty) (Json.draftFields extra.entries) = .ok (put extra) := by
  have hmap : OrderedMap.empty.insertAll extra.entries = extra :=
    OrderedMap.ext_entries (OrderedMap.entries_ofList_of_nodup extra.nodup_keys)
  rw [readFields_insertAll put hread h, hmap]

end

end

/-! ## Slots, nodes and links -/

theorem readSlot_json {s : Slot} (h : s.Clean) : readSlot s.json.draft = .ok s := by
  have hextra : readFields readSlotField ⟨some s.name, .empty⟩ (Json.draftFields s.extra.entries) =
      .ok ⟨some s.name, s.extra⟩ := by
    refine readFields_extra (SlotFields.mk (some s.name)) (fun extra key d hkey => ?_) h
    rw [readSlotField, if_neg (by simpa [Slot.known] using hkey)]
  rw [readSlot, Slot.json, readObject_draft, Json.draftFields, readFields]
  have hname : readSlotField ⟨none, .empty⟩ "name" (Json.string s.name).draft =
      .ok ⟨some s.name, .empty⟩ := rfl
  rw [hname, Except.ok_bind, hextra]
  rfl

/-- An optional field is read if it is there. -/
theorem readFields_id {f : NodeFields} (hf : f.id = none) (id : Option NodeId) :
    readFields readNodeField f (Json.draftFields (optionalField "id" (id.map NodeId.json))) =
      .ok { f with id := id.map some } := by
  cases id with
  | none =>
      obtain ⟨type, _, order, slots, values, extra⟩ := f
      cases hf
      rfl
  | some id =>
      have hfield : readNodeField f "id" id.json.draft = .ok { f with id := some (some id) } := by
        simp only [readNodeField, hf, once, readNodeId_json]
        rfl
      rw [Option.map_some, optionalField, Json.draftFields, readFields, hfield]
      rfl

theorem readFields_order {f : NodeFields} (hf : f.order = none) (order : Option Int64) :
    readFields readNodeField f (Json.draftFields
        (optionalField "order" (order.map fun i => Json.ofInt i.toInt))) =
      .ok { f with order := order.map some } := by
  cases order with
  | none =>
      obtain ⟨type, id, _, slots, values, extra⟩ := f
      cases hf
      rfl
  | some i =>
      have hfield : readNodeField f "order" (Json.ofInt i.toInt).draft =
          .ok { f with order := some (some i) } := by
        simp only [readNodeField, hf, once, readOrder_ofInt]
        rfl
      rw [Option.map_some, optionalField, Json.draftFields, readFields, hfield]
      rfl

theorem readNode_json {n : Node} (h : n.Clean) : readNode n.json.draft = .ok n := by
  have hslots : readList readSlot (Json.array (n.slots.map Slot.json)).draft = .ok n.slots :=
    readList_draft Slot.json fun s hs => readSlot_json (h.slots s hs)
  have hvalues := readList_readValue_draft h.values
  have hextra : readFields readNodeField
      ⟨some n.type, n.id.map some, n.order.map some, some n.slots, some n.values, .empty⟩
        (Json.draftFields n.extra.entries) =
      .ok ⟨some n.type, n.id.map some, n.order.map some, some n.slots, some n.values, n.extra⟩ := by
    refine readFields_extra (NodeFields.mk _ _ _ _ _) (fun extra key d hkey => ?_) h.extra
    simp only [Node.known, List.mem_cons, List.not_mem_nil, or_false, not_or] at hkey
    obtain ⟨htype, hid, horder, hinputs, hwidgets⟩ := hkey
    simp only [readNodeField, htype, hid, horder, hinputs, hwidgets, if_false]
  have hrest : ∀ f : NodeFields, f.slots = none → f.values = none →
      readFields readNodeField f (Json.draftFields
        [("inputs", Json.array (n.slots.map Slot.json)), ("widgets_values", .array n.values)]) =
      .ok { f with slots := some n.slots, values := some n.values } := by
    rintro ⟨type, id, order, _, _, extra⟩ ⟨⟩ ⟨⟩
    simp only [Json.draftFields, readFields, readNodeField, once, hslots, hvalues]
    rfl
  have htype : readNodeField ⟨none, none, none, none, none, .empty⟩ "type"
      (Json.string n.type).draft = .ok ⟨some n.type, none, none, none, none, .empty⟩ := rfl
  rw [readNode, Node.json, readObject_draft, Json.draftFields_append, readFields_append,
    Json.draftFields_append, readFields_append, Json.draftFields_append, readFields_append,
    Json.draftFields, readFields, htype, Except.ok_bind, readFields_id rfl, Except.ok_bind,
    readFields_order rfl, Except.ok_bind, hrest _ rfl rfl, Except.ok_bind, hextra, Except.ok_bind]
  obtain ⟨type, id, order, slots, values, extra⟩ := n
  cases id <;> cases order <;> rfl

theorem Link.Clean.wellFormed_entries {l : Link} (h : l.Clean) :
    ∀ v ∈ l.id.toList ++ [l.fromNode.json, Json.ofInt l.fromSlot.toNat, l.toNode.json,
      Json.ofInt l.toSlot.toNat, l.typeTag], v.WellFormed := by
  intro v hv
  simp only [List.mem_append, Option.mem_toList, List.mem_cons, List.not_mem_nil, or_false] at hv
  rcases hv with hv | rfl | rfl | rfl | rfl | rfl
  · exact h.id v hv
  · exact NodeId.wellFormed_json _
  · exact Json.wellFormed_ofInt _
  · exact NodeId.wellFormed_json _
  · exact Json.wellFormed_ofInt _
  · exact h.typeTag

theorem readLink_json {l : Link} (h : l.Clean) : readLink l.json.draft = .ok l := by
  have hends : readLinkEntries l.id l.fromNode.json (Json.ofInt l.fromSlot.toNat) l.toNode.json
      (Json.ofInt l.toSlot.toNat) l.typeTag = .ok l := by
    simp only [readLinkEntries, readLinkNode_json, readLinkSlot_ofInt]
    rfl
  rw [readLink, Link.json, readList_readValue_draft h.wellFormed_entries, Except.ok_bind]
  -- the number of entries tells whether there is an id
  cases hid : l.id with
  | none =>
      rw [hid] at hends
      exact hends
  | some v =>
      rw [hid] at hends
      exact hends

/-! ## Graphs -/

/-- A clean graph is read from its own form. -/
theorem ofJson_json_of_clean {g : Graph} (h : g.Clean) : ofJson g.json = .ok g := by
  have hnodes : readList readNode (Json.array (g.nodes.map Node.json)).draft = .ok g.nodes :=
    readList_draft Node.json fun n hn => readNode_json (h.nodes n hn)
  have hlinks : readList readLink (Json.array (g.links.map Link.json)).draft = .ok g.links :=
    readList_draft Link.json fun l hl => readLink_json (h.links l hl)
  have hextra : readFields readGraphField ⟨some g.nodes, some g.links, .empty⟩
      (Json.draftFields g.extra.entries) = .ok ⟨some g.nodes, some g.links, g.extra⟩ := by
    refine readFields_extra (GraphFields.mk _ _) (fun extra key d hkey => ?_) h.extra
    simp only [known, List.mem_cons, List.not_mem_nil, or_false, not_or] at hkey
    obtain ⟨hnode, hlink⟩ := hkey
    simp only [readGraphField, hnode, hlink, if_false]
  have hnode : readGraphField ⟨none, none, .empty⟩ "nodes"
      (Json.array (g.nodes.map Node.json)).draft = .ok ⟨some g.nodes, none, .empty⟩ := by
    simp only [readGraphField, once, hnodes]
    rfl
  have hlink : readGraphField ⟨some g.nodes, none, .empty⟩ "links"
      (Json.array (g.links.map Link.json)).draft = .ok ⟨some g.nodes, some g.links, .empty⟩ := by
    simp only [readGraphField, once, hlinks]
    rfl
  rw [ofJson, ofDraft, json, readObject_draft, Json.draftFields, Json.draftFields, readFields,
    hnode, Except.ok_bind, readFields, hlink, Except.ok_bind, hextra]
  rfl

/-- Known fields before clean other ones repeat no key. -/
theorem wellFormed_object_of_clean {known : List String} (hknown : known.Nodup)
    {fs : List (String × Json)} (hkeys : (Entries.keys fs).Sublist known)
    (hvalues : ∀ f ∈ fs, f.2.WellFormed) {extra : OrderedMap String Json}
    (h : CleanExtra known extra) : (Json.object (fs ++ extra.entries)).WellFormed := by
  have hall : ∀ f ∈ fs ++ extra.entries, f.2.WellFormed :=
    List.forall_mem_append.2 ⟨hvalues, fun e he => (h e he).2⟩
  refine Json.wellFormed_object_iff.2 ⟨?_, hall⟩
  rw [Entries.keys, List.map_append]
  refine List.nodup_append.2 ⟨hkeys.nodup hknown, extra.nodup_keys, ?_⟩
  rintro key hfs _ hextra rfl
  obtain ⟨e, he, rfl⟩ := List.mem_map.1 hextra
  exact (h e he).1 (hkeys.subset hfs)

theorem wellFormed_optionalField {key : String} {v? : Option Json}
    (h : ∀ v ∈ v?, v.WellFormed) : ∀ f ∈ optionalField key v?, f.2.WellFormed := by
  cases v? with
  | none => exact List.forall_mem_nil _
  | some v => exact List.forall_mem_singleton.2 (h v rfl)

theorem Slot.wellFormed_json {s : Slot} (h : s.Clean) : s.json.WellFormed := by
  have hknown : Slot.known.Nodup := by decide
  have hname : ∀ f ∈ [("name", Json.string s.name)], f.2.WellFormed :=
    List.forall_mem_singleton.2 trivial
  exact wellFormed_object_of_clean hknown (List.Sublist.refl _) hname h

theorem Node.wellFormed_json {n : Node} (h : n.Clean) : n.json.WellFormed := by
  have hknown : Node.known.Nodup := by decide
  refine wellFormed_object_of_clean hknown ?_ ?_ h.extra
  · have hid : (Entries.keys (optionalField "id" (n.id.map NodeId.json))).Sublist ["id"] := by
      cases n.id with
      | none => exact List.nil_sublist _
      | some id => exact List.Sublist.refl _
    have horder : (Entries.keys (optionalField "order"
        (n.order.map fun i => Json.ofInt i.toInt))).Sublist ["order"] := by
      cases n.order with
      | none => exact List.nil_sublist _
      | some i => exact List.Sublist.refl _
    simp only [Entries.keys, List.map_append, List.map_cons, List.cons_append]
    exact ((hid.append horder).append (List.Sublist.refl _)).cons_cons "type"
  · have hid : ∀ v ∈ n.id.map NodeId.json, v.WellFormed := by
      rintro v hv
      obtain ⟨id, -, rfl⟩ := Option.map_eq_some_iff.1 hv
      exact id.wellFormed_json
    have horder : ∀ v ∈ n.order.map fun i => Json.ofInt i.toInt, v.WellFormed := by
      rintro v hv
      obtain ⟨i, -, rfl⟩ := Option.map_eq_some_iff.1 hv
      exact Json.wellFormed_ofInt _
    have hslots : (Json.array (n.slots.map Slot.json)).WellFormed := by
      refine Json.wellFormed_array_iff.2 (List.forall_mem_map.2 fun s hs => ?_)
      exact Slot.wellFormed_json (h.slots s hs)
    have hvalues : (Json.array n.values).WellFormed := Json.wellFormed_array_iff.2 h.values
    refine List.forall_mem_append.2 ⟨List.forall_mem_append.2 ⟨?_, wellFormed_optionalField horder⟩,
      List.forall_mem_cons.2 ⟨hslots, List.forall_mem_singleton.2 hvalues⟩⟩
    exact List.forall_mem_cons.2 ⟨trivial, wellFormed_optionalField hid⟩

theorem Link.wellFormed_json {l : Link} (h : l.Clean) : l.json.WellFormed :=
  Json.wellFormed_array_iff.2 h.wellFormed_entries

/-- The form of a clean graph is a value: no object in it repeats a key. -/
theorem Clean.wellFormed_json {g : Graph} (h : g.Clean) : g.json.WellFormed := by
  have hknown : known.Nodup := by decide
  have hnodes : (Json.array (g.nodes.map Node.json)).WellFormed := by
    refine Json.wellFormed_array_iff.2 (List.forall_mem_map.2 fun n hn => ?_)
    exact Node.wellFormed_json (h.nodes n hn)
  have hlinks : (Json.array (g.links.map Link.json)).WellFormed := by
    refine Json.wellFormed_array_iff.2 (List.forall_mem_map.2 fun l hl => ?_)
    exact Link.wellFormed_json (h.links l hl)
  have hfields : ∀ f ∈ [("nodes", Json.array (g.nodes.map Node.json)),
      ("links", Json.array (g.links.map Link.json))], f.2.WellFormed :=
    List.forall_mem_cons.2 ⟨hnodes, List.forall_mem_singleton.2 hlinks⟩
  exact wellFormed_object_of_clean hknown (List.Sublist.refl _) hfields h.extra

/-! ## Files -/

/-- A part of a graph is no collection of templates. -/
theorem find?_templates_select (g : Graph) (ids : List NodeId) :
    Entries.find? "templates" (("nodes", Json.array ((g.select ids).nodes.map Node.json)) ::
      ("links", Json.array ((g.select ids).links.map Link.json)) ::
        (g.select ids).extra.entries) = none := by
  rw [Entries.find?_eq_none_iff]
  intro hmem
  rcases List.mem_cons.1 hmem with hmem | hmem
  · exact absurd hmem (show "templates" ≠ "nodes" by decide)
  rcases List.mem_cons.1 hmem with hmem | hmem
  · exact absurd hmem (show "templates" ≠ "links" by decide)
  · exact absurd (g.keys_extra_select ids hmem) (by decide)

/-- The text of a part of a clean graph is read as that part. -/
theorem Clean.parse_select {g : Graph} (h : g.Clean) (ids : List NodeId) {text : String}
    (htext : Json.read? text = some (g.select ids).json) : parse text = .ok (g.select ids) := by
  have hread : ofJson (g.select ids).json = .ok (g.select ids) :=
    ofJson_json_of_clean (h.select ids)
  unfold parse
  rw [htext]
  simp only [json, find?_templates_select]
  rw [json] at hread
  rw [hread]
  rfl

/-- A clean graph is written as a value that repeats no key, and it is read from that value as it
was. A part of it is clean too, and a text that says what the part is written as is read as the
part. The graphs that are read from texts are clean, and so are those that are built. -/
theorem ofJson_json (g : Graph) :
    (g.Clean → g.json.WellFormed ∧ ofJson g.json = .ok g ∧ ∀ ids : List NodeId,
      (g.select ids).Clean ∧ ∀ text : String,
        Json.read? text = some (g.select ids).json → parse text = .ok (g.select ids)) ∧
    ((∃ text, parse text = .ok g) → g.Clean) ∧ (g.Built → g.Clean) := by
  refine ⟨fun h => ⟨h.wellFormed_json, ofJson_json_of_clean h, fun ids => ?_⟩, ?_, Built.clean⟩
  · exact ⟨h.select ids, fun text => h.parse_select ids⟩
  · rintro ⟨text, htext⟩
    exact clean_of_parse htext

/-- A node whose id looks like a number and is none, one without an id, and a link between them
whose own id is `null`. -/
def oddGraph : Graph where
  nodes := [
    ⟨"relay", some ⟨"+5"⟩, some 3, [⟨"value", .empty⟩], [], .empty⟩,
    ⟨"relay", none, none, [], [], .empty⟩]
  links := [⟨some .null, ⟨"1"⟩, 0, ⟨"+5"⟩, 0, .string "INT"⟩]
  extra := .ofList [("version", Json.ofInt 4)]

/-- A text of the graph. -/
def oddText : String :=
  "\x7b\"version\":4,\"links\":[[null,1,0,\"+5\",0,\"INT\"]],\"nodes\":[" ++
  "\x7b\"id\":\"+5\",\"order\":3,\"type\":\"relay\",\"inputs\":[\x7b\"name\":\"value\"\x7d]\x7d," ++
  "\x7b\"type\":\"relay\"\x7d]\x7d"

/-- A text of the node without an id, which now has one. -/
def oddPart : String :=
  "\x7b\"nodes\":[\x7b\"type\":\"relay\",\"id\":1,\"inputs\":[],\"widgets_values\":[]\x7d]," ++
  "\"links\":[],\"last_node_id\":1,\"last_link_id\":0\x7d"

theorem oddGraph_restored :
    parse oddText = .ok oddGraph ∧ oddGraph.Clean ∧ ofJson oddGraph.json = .ok oddGraph ∧
      parse oddPart = .ok (oddGraph.select [⟨"1"⟩]) := by
  obtain ⟨hrestored, hparsed, -⟩ := ofJson_json oddGraph
  have hparse : parse oddText = .ok oddGraph := Except.eq_ok_of_toOption (by decide +kernel)
  have hclean := hparsed ⟨oddText, hparse⟩
  obtain ⟨-, hjson, hselect⟩ := hrestored hclean
  exact ⟨hparse, hclean, hjson, (hselect [⟨"1"⟩]).2 oddPart (by decide +kernel)⟩

end Graph

end StepGraph
