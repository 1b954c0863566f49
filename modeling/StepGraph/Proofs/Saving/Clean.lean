import StepGraph.Graph.Builder
import StepGraph.Graph.Selection
import StepGraph.Graph.Text
import StepGraph.Proofs.Outcome
import StepGraph.Proofs.Saving.Drafts

/-!
# Graphs without double fields

Beside the fields the library knows, a graph, its nodes and their slots keep others. A graph is
`Clean` if none of these has the name of a known field, which would then stand there twice, and if
no value in the graph repeats a key, which no value does that was read.

Whatever is read is clean, and so is what the builder makes. A part of a clean graph is clean.
-/

namespace StepGraph

open Json (Draft)

namespace Graph

/-! ## Clean graphs -/

/-- None of the other fields has the name of a known one. -/
def CleanExtra (known : List String) (extra : OrderedMap String Json) : Prop :=
  ∀ e ∈ extra.entries, e.1 ∉ known ∧ e.2.WellFormed

/-- The fields of a slot, of a node and of a graph that the library knows. -/
def Slot.known : List String := ["name"]

def Node.known : List String := ["type", "id", "order", "inputs", "widgets_values"]

def known : List String := ["nodes", "links"]

def Slot.Clean (s : Slot) : Prop := CleanExtra Slot.known s.extra

structure Node.Clean (n : Node) : Prop where
  slots : ∀ s ∈ n.slots, s.Clean
  values : ∀ v ∈ n.values, v.WellFormed
  extra : CleanExtra Node.known n.extra

structure Link.Clean (l : Link) : Prop where
  id : ∀ v ∈ l.id, v.WellFormed
  typeTag : l.typeTag.WellFormed

structure Clean (g : Graph) : Prop where
  nodes : ∀ n ∈ g.nodes, n.Clean
  links : ∀ l ∈ g.links, l.Clean
  extra : CleanExtra known g.extra

theorem CleanExtra.empty (known : List String) : CleanExtra known .empty := List.forall_mem_nil _

theorem CleanExtra.insert {known : List String} {extra : OrderedMap String Json}
    (h : CleanExtra known extra) {key : String} (hkey : key ∉ known) {v : Json}
    (hv : v.WellFormed) : CleanExtra known (extra.insert key v) := by
  intro e he
  rcases OrderedMap.mem_entries_insert he with rfl | he
  · exact ⟨hkey, hv⟩
  · exact h e he

/-! ## What is read is clean -/

section

variable {α : Type} {read : Draft → Read α} {P : α → Prop}

theorem wellFormed_of_readValue {d : Draft} {v : Json} (h : readValue d = .ok v) :
    v.WellFormed := by
  rw [readValue] at h
  split at h
  · next v' hv =>
    cases h
    exact Draft.wellFormed_of_value? hv
  · cases h

theorem forall_of_readEach (hread : ∀ d a, read d = .ok a → P a) {ds : List Draft} {as : List α}
    (h : readEach read ds = .ok as) : ∀ a ∈ as, P a := by
  induction ds generalizing as with
  | nil =>
      cases h
      exact List.forall_mem_nil _
  | cons d ds ih =>
      obtain ⟨a, ha, hrest⟩ := Except.bind_eq_ok_iff.1 h
      obtain ⟨as', has, heq⟩ := Except.bind_eq_ok_iff.1 hrest
      cases heq
      exact List.forall_mem_cons.2 ⟨hread d a ha, ih has⟩

theorem forall_of_readList (hread : ∀ d a, read d = .ok a → P a) {d : Draft} {as : List α}
    (h : readList read d = .ok as) : ∀ a ∈ as, P a := by
  cases d with
  | array items closed =>
      obtain ⟨as', has, heq⟩ := Except.bind_eq_ok_iff.1 h
      split at heq
      · cases heq
        exact forall_of_readEach hread has
      · cases heq
  | _ => cases h

theorem invariant_of_readFields {read : α → String → Draft → Read α}
    (hread : ∀ a key d a', P a → read a key d = .ok a' → P a') {fields : List (String × Draft)}
    {start a : α} (hstart : P start) (h : readFields read start fields = .ok a) : P a := by
  induction fields generalizing start with
  | nil =>
      cases h
      exact hstart
  | cons field fields ih =>
      obtain ⟨key, d⟩ := field
      obtain ⟨b, hb, hrest⟩ := Except.bind_eq_ok_iff.1 h
      exact ih (hread start key d b hstart hb) hrest

/-- What each field keeps the whole object keeps. -/
theorem invariant_of_readObject {read : α → String → Draft → Read α} {start a : α} {d : Draft}
    (hread : ∀ a key d a', P a → read a key d = .ok a' → P a') (hstart : P start)
    (h : readObject start read d = .ok a) : P a := by
  cases d with
  | object fields closed =>
      obtain ⟨a', ha', heq⟩ := Except.bind_eq_ok_iff.1 h
      split at heq
      · cases heq
        exact invariant_of_readFields hread hstart ha'
      · cases heq
  | _ => cases h

theorem once_eq_ok {old field : Option α} {new : Read α} (h : once old new = .ok field) :
    ∃ a, new = .ok a ∧ field = some a := by
  cases old with
  | some a => cases h
  | none =>
      cases new with
      | error e => cases h
      | ok a =>
          cases h
          exact ⟨a, rfl, rfl⟩

theorem forall_mem_getD {as? : Option (List α)} (h : ∀ as ∈ as?, ∀ a ∈ as, P a) :
    ∀ a ∈ as?.getD [], P a := by
  cases as? with
  | none => exact List.forall_mem_nil _
  | some as => exact h as rfl

theorem cleanExtra_of_readExtra {known : List String} {extra extra' : OrderedMap String Json}
    {key : String} {d : Draft} (h : CleanExtra known extra) (hkey : key ∉ known)
    (hread : readExtra extra key d = .ok extra') : CleanExtra known extra' := by
  obtain ⟨v, hv, heq⟩ := Except.bind_eq_ok_iff.1 hread
  cases heq
  exact h.insert hkey (wellFormed_of_readValue hv)

end

theorem clean_of_readSlot {d : Draft} {s : Slot} (h : readSlot d = .ok s) : s.Clean := by
  obtain ⟨fields, hfields, hs⟩ := Except.bind_eq_ok_iff.1 h
  have hextra : CleanExtra Slot.known fields.extra := by
    refine invariant_of_readObject (P := fun s => CleanExtra Slot.known s.extra) ?_
      (CleanExtra.empty _) hfields
    intro s key d s' hs h
    rw [readSlotField] at h
    split at h
    · obtain ⟨name, -, heq⟩ := Except.bind_eq_ok_iff.1 h
      cases heq
      exact hs
    · next hname =>
      obtain ⟨extra, hread, heq⟩ := Except.bind_eq_ok_iff.1 h
      cases heq
      exact cleanExtra_of_readExtra hs (by simpa [Slot.known] using hname) hread
  split at hs
  · cases hs
    exact hextra
  · cases hs

/-- What has been read of a node is clean. -/
structure NodeFields.Clean (n : NodeFields) : Prop where
  slots : ∀ ss ∈ n.slots, ∀ s ∈ ss, s.Clean
  values : ∀ vs ∈ n.values, ∀ v ∈ vs, v.WellFormed
  extra : CleanExtra Node.known n.extra

theorem NodeFields.clean_of_readNodeField {n n' : NodeFields} {key : String} {d : Draft}
    (hn : n.Clean) (h : readNodeField n key d = .ok n') : n'.Clean := by
  obtain ⟨hslots, hvalues, hextra⟩ := hn
  rw [readNodeField] at h
  split at h
  · obtain ⟨type, -, heq⟩ := Except.bind_eq_ok_iff.1 h
    cases heq
    exact ⟨hslots, hvalues, hextra⟩
  split at h
  · obtain ⟨id, -, heq⟩ := Except.bind_eq_ok_iff.1 h
    cases heq
    exact ⟨hslots, hvalues, hextra⟩
  split at h
  · obtain ⟨order, -, heq⟩ := Except.bind_eq_ok_iff.1 h
    cases heq
    exact ⟨hslots, hvalues, hextra⟩
  split at h
  · obtain ⟨slots, honce, heq⟩ := Except.bind_eq_ok_iff.1 h
    obtain ⟨ss, hss, rfl⟩ := once_eq_ok honce
    cases heq
    refine ⟨?_, hvalues, hextra⟩
    rintro _ ⟨⟩
    exact forall_of_readList (fun _ _ => clean_of_readSlot) hss
  split at h
  · obtain ⟨values, honce, heq⟩ := Except.bind_eq_ok_iff.1 h
    obtain ⟨vs, hvs, rfl⟩ := once_eq_ok honce
    cases heq
    refine ⟨hslots, ?_, hextra⟩
    rintro _ ⟨⟩
    exact forall_of_readList (fun _ _ => wellFormed_of_readValue) hvs
  · next htype hid horder hinputs hwidgets =>
    obtain ⟨extra, hread, heq⟩ := Except.bind_eq_ok_iff.1 h
    cases heq
    refine ⟨hslots, hvalues, cleanExtra_of_readExtra hextra ?_ hread⟩
    simp [Node.known, htype, hid, horder, hinputs, hwidgets]

theorem clean_of_readNode {d : Draft} {n : Node} (h : readNode d = .ok n) : n.Clean := by
  obtain ⟨fields, hfields, hn⟩ := Except.bind_eq_ok_iff.1 h
  have hclean : fields.Clean := by
    refine invariant_of_readObject (fun _ _ _ _ => NodeFields.clean_of_readNodeField) ?_ hfields
    exact ⟨fun _ h => absurd h (by simp), fun _ h => absurd h (by simp), CleanExtra.empty _⟩
  obtain ⟨hslots, hvalues, hextra⟩ := hclean
  split at hn
  · cases hn
    refine ⟨?_, ?_, hextra⟩
    · exact forall_mem_getD hslots
    · exact forall_mem_getD hvalues
  · cases hn

theorem eq_of_readLinkEntries {id : Option Json} {a b c d e : Json} {l : Link}
    (h : readLinkEntries id a b c d e = .ok l) : l.id = id ∧ l.typeTag = e := by
  simp only [readLinkEntries, Except.bind_eq_ok_iff] at h
  obtain ⟨fromNode, -, fromSlot, -, toNode, -, toSlot, -, heq⟩ := h
  cases heq
  exact ⟨rfl, rfl⟩

theorem clean_of_readLink {d : Draft} {l : Link} (h : readLink d = .ok l) : l.Clean := by
  obtain ⟨entries, hentries, hl⟩ := Except.bind_eq_ok_iff.1 h
  have hvalues : ∀ v ∈ entries, v.WellFormed :=
    forall_of_readList (fun _ _ => wellFormed_of_readValue) hentries
  unfold readLinkParts at hl
  split at hl
  · obtain ⟨hid, htag⟩ := eq_of_readLinkEntries hl
    refine ⟨fun v hv => ?_, htag ▸ hvalues _ (by simp)⟩
    rw [hid] at hv
    cases hv
  · obtain ⟨hid, htag⟩ := eq_of_readLinkEntries hl
    refine ⟨fun v hv => ?_, htag ▸ hvalues _ (by simp)⟩
    rw [hid] at hv
    cases hv
    exact hvalues _ (List.mem_cons_self ..)
  · cases hl

/-- What has been read of a graph is clean. -/
structure GraphFields.Clean (g : GraphFields) : Prop where
  nodes : ∀ ns ∈ g.nodes, ∀ n ∈ ns, n.Clean
  links : ∀ ls ∈ g.links, ∀ l ∈ ls, l.Clean
  extra : CleanExtra known g.extra

theorem GraphFields.clean_of_readGraphField {g g' : GraphFields} {key : String} {d : Draft}
    (hg : g.Clean) (h : readGraphField g key d = .ok g') : g'.Clean := by
  obtain ⟨hnodes, hlinks, hextra⟩ := hg
  rw [readGraphField] at h
  split at h
  · obtain ⟨nodes, honce, heq⟩ := Except.bind_eq_ok_iff.1 h
    obtain ⟨ns, hns, rfl⟩ := once_eq_ok honce
    cases heq
    refine ⟨?_, hlinks, hextra⟩
    rintro _ ⟨⟩
    exact forall_of_readList (fun _ _ => clean_of_readNode) hns
  split at h
  · obtain ⟨links, honce, heq⟩ := Except.bind_eq_ok_iff.1 h
    obtain ⟨ls, hls, rfl⟩ := once_eq_ok honce
    cases heq
    refine ⟨hnodes, ?_, hextra⟩
    rintro _ ⟨⟩
    exact forall_of_readList (fun _ _ => clean_of_readLink) hls
  · next hnode hlink =>
    obtain ⟨extra, hread, heq⟩ := Except.bind_eq_ok_iff.1 h
    cases heq
    refine ⟨hnodes, hlinks, cleanExtra_of_readExtra hextra ?_ hread⟩
    simp [known, hnode, hlink]

theorem clean_of_ofDraft {d : Draft} {g : Graph} (h : ofDraft d = .ok g) : g.Clean := by
  obtain ⟨fields, hfields, hg⟩ := Except.bind_eq_ok_iff.1 h
  have hclean : fields.Clean := by
    refine invariant_of_readObject (fun _ _ _ _ => GraphFields.clean_of_readGraphField) ?_ hfields
    exact ⟨fun _ h => absurd h (by simp), fun _ h => absurd h (by simp), CleanExtra.empty _⟩
  obtain ⟨hnodes, hlinks, hextra⟩ := hclean
  cases hg
  exact ⟨forall_mem_getD hnodes, forall_mem_getD hlinks, hextra⟩

/-- Every graph that is read from a text is clean, the first one of a collection of templates
too. -/
theorem clean_of_parse {text : String} {g : Graph} (h : parse text = .ok g) : g.Clean := by
  have htext : ∀ {text : String} {g : Graph}, ofText text = .ok g → g.Clean := by
    intro text g h
    unfold ofText at h
    split at h
    obtain ⟨g', hg', heq⟩ := Except.bind_eq_ok_iff.1 h
    split at heq
    · cases heq
      exact clean_of_ofDraft hg'
    · cases heq
  rw [parse] at h
  split at h
  · cases h
  split at h
  · split at h
    · cases h
    · unfold ofTemplate at h
      split at h
      · split at h
        · exact htext (Except.mapError_eq_ok_iff.1 h)
        · cases h
      · cases h
    · exact clean_of_ofDraft (Except.mapError_eq_ok_iff.1 h)
  · cases h

/-! ## What the builder makes is clean -/

/-- The nodes that can be built. -/
inductive Node.Built : Node → Prop
  | make (id type : String) : Built (Node.make id type)
  | withSlot {n : Node} (h : Built n) (name : String) : Built (n.withSlot name)
  | withValue {n : Node} (h : Built n) {v : Json} (hv : v.WellFormed) : Built (n.withValue v)
  | withOrder {n : Node} (h : Built n) (order : Int64) : Built (n.withOrder order)
  | anonymous {n : Node} (h : Built n) : Built n.anonymous

/-- The graphs that can be built. -/
inductive Built : Graph → Prop
  | empty : Built .empty
  | withNode {g : Graph} (h : Built g) {n : Node} (hn : n.Built) : Built (g.withNode n)
  | withLink {g : Graph} (h : Built g) (fromNode : String) (fromSlot : UInt64) (toNode : String)
    (toSlot : UInt64) (typeTag : String) :
    Built (g.withLink fromNode fromSlot toNode toSlot typeTag)

theorem Node.Built.clean {n : Node} (h : n.Built) : n.Clean := by
  induction h with
  | make id type => exact ⟨List.forall_mem_nil _, List.forall_mem_nil _, CleanExtra.empty _⟩
  | withSlot _ name ih =>
      refine ⟨fun s hs => ?_, ih.values, ih.extra⟩
      rcases List.mem_append.1 hs with hs | hs
      · exact ih.slots s hs
      · rw [List.mem_singleton.1 hs]
        exact CleanExtra.empty _
  | withValue _ hv ih =>
      refine ⟨ih.slots, fun v hmem => ?_, ih.extra⟩
      rcases List.mem_append.1 hmem with hmem | hmem
      · exact ih.values v hmem
      · rwa [List.mem_singleton.1 hmem]
  | withOrder _ order ih => exact ⟨ih.slots, ih.values, ih.extra⟩
  | anonymous _ ih => exact ⟨ih.slots, ih.values, ih.extra⟩

theorem Built.clean {g : Graph} (h : g.Built) : g.Clean := by
  induction h with
  | empty => exact ⟨List.forall_mem_nil _, List.forall_mem_nil _, CleanExtra.empty _⟩
  | withNode _ hn ih =>
      refine ⟨fun n hmem => ?_, ih.links, ih.extra⟩
      rcases List.mem_append.1 hmem with hmem | hmem
      · exact ih.nodes n hmem
      · rw [List.mem_singleton.1 hmem]
        exact hn.clean
  | withLink _ _ _ _ _ _ ih =>
      refine ⟨ih.nodes, fun l hmem => ?_, ih.extra⟩
      rcases List.mem_append.1 hmem with hmem | hmem
      · exact ih.links l hmem
      · rw [List.mem_singleton.1 hmem]
        refine ⟨?_, trivial⟩
        rintro _ ⟨⟩
        trivial

/-! ## Parts of clean graphs are clean -/

theorem exists_of_mem_selectNodes {ids : List NodeId} {start : Nat} {ns : List Node} {n : Node}
    (h : n ∈ selectNodes ids start ns) : ∃ m ∈ ns, ∃ id, n = { m with id := some id } := by
  induction ns generalizing start with
  | nil => cases h
  | cons m ns ih =>
      have hlater : ∀ h : n ∈ selectNodes ids (start + 1) ns,
          ∃ k ∈ m :: ns, ∃ id, n = { k with id := some id } := by
        intro h
        obtain ⟨k, hk, heq⟩ := ih h
        exact ⟨k, List.mem_cons_of_mem m hk, heq⟩
      rw [selectNodes] at h
      split at h
      · rcases List.mem_cons.1 h with rfl | h
        · exact ⟨m, List.mem_cons_self .., _, rfl⟩
        · exact hlater h
      · exact hlater h

/-- A part of a graph keeps of the other fields what it counts itself. -/
theorem keys_extra_select (g : Graph) (ids : List NodeId) :
    (g.select ids).extra.keys ⊆ ["last_node_id", "last_link_id"] := by
  intro key hkey
  simp only [select] at hkey
  split at hkey
  · simpa [OrderedMap.keys, Entries.keys_insert] using hkey
  · simpa [OrderedMap.keys] using Or.inr hkey

theorem Clean.select {g : Graph} (h : g.Clean) (ids : List NodeId) : (g.select ids).Clean := by
  refine ⟨fun n hn => ?_, fun l hl => h.links l (List.mem_filter.1 hl).1, ?_⟩
  · obtain ⟨m, hm, id, rfl⟩ := exists_of_mem_selectNodes hn
    obtain ⟨hslots, hvalues, hextra⟩ := h.nodes m hm
    exact ⟨hslots, hvalues, hextra⟩
  · simp only [Graph.select]
    split
    · exact ((CleanExtra.empty _).insert (by decide) (Json.wellFormed_ofInt _)).insert (by decide)
        (Json.wellFormed_ofInt _)
    · exact (CleanExtra.empty _).insert (by decide) (Json.wellFormed_ofInt _)

end Graph

end StepGraph
