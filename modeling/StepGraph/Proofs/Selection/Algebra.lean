import Mathlib.Order.Bounds.Basic
import StepGraph.Proofs.Saving.Numeral
import StepGraph.Proofs.Selection.Nodes

/-!
# Selecting parts of a graph

A part of a graph has those nodes whose ids are wanted, with these ids written down, and the links
between them. It does not matter how often or in which order ids are wanted, and a part of a part is
the part with the ids that are wanted both times: all ids are written down by the first selection,
so positions do not count in the second one.

Nothing of the other fields of the graph is kept. The fields of a part say the largest number among
the ids of its nodes and the largest one among the ids of its links.
-/

namespace StepGraph

namespace Graph

/-! ## The numbers of a graph -/

/-- The 64-bit numbers that the ids of the nodes are numerals of. -/
def nodeNumbers (g : Graph) : Set Int :=
  {n | (∃ id ∈ g.nodeIds, Decimal.integer? 10 id.text.toList = some n) ∧ ∃ i : Int64, n = i.toInt}

/-- The 64-bit numbers that are ids of links. -/
def linkNumbers (g : Graph) : Set Int :=
  {n | (∃ l ∈ g.links, l.id = some (Json.ofInt n)) ∧ ∃ i : Int64, n = i.toInt}

/-- The fields beside the nodes and the links say the largest number of a node, if there is one, and
the largest number of a link, or zero if there is none. -/
structure SaysLastIds (g : Graph) : Prop where
  keys : ∀ key ∈ g.extra.keys, key = "last_node_id" ∨ key = "last_link_id"
  lastNode : ∀ v, g.extra.find? "last_node_id" = some v ↔
    ∃ n, IsGreatest g.nodeNumbers n ∧ v = Json.ofInt n
  noLastNode : g.extra.find? "last_node_id" = none ↔ g.nodeNumbers = ∅
  lastLink : ∃ n, g.extra.find? "last_link_id" = some (Json.ofInt n) ∧
    (IsGreatest g.linkNumbers n ∨ g.linkNumbers = ∅ ∧ n = 0)

theorem max?_eq_some_iff_isGreatest {numbers : List Int} {s : Set Int}
    (h : ∀ n, n ∈ numbers ↔ n ∈ s) {n : Int} : numbers.max? = some n ↔ IsGreatest s n := by
  simp only [List.max?_eq_some_iff, h]
  rfl

theorem max?_eq_none_iff_eq_empty {numbers : List Int} {s : Set Int}
    (h : ∀ n, n ∈ numbers ↔ n ∈ s) : numbers.max? = none ↔ s = ∅ := by
  simp only [List.max?_eq_none_iff, List.eq_nil_iff_forall_not_mem, Set.eq_empty_iff_forall_notMem, h]

theorem mem_nodeNumbers_iff {g : Graph} {n : Int} :
    n ∈ g.nodeIds.filterMap (fun id => id.int64?.map Int64.toInt) ↔ n ∈ g.nodeNumbers := by
  simp only [List.mem_filterMap, Option.map_eq_some_iff, NodeId.int64?, Decimal.int64?,
    Option.bind_eq_some_iff, Decimal.fitInt64?_eq_some_iff, nodeNumbers, Set.mem_ofPred_eq]
  constructor
  · rintro ⟨id, hid, i, ⟨_, hread, rfl⟩, rfl⟩
    exact ⟨⟨id, hid, hread⟩, i, rfl⟩
  · rintro ⟨⟨id, hid, hread⟩, i, rfl⟩
    exact ⟨id, hid, i, ⟨_, hread, rfl⟩, rfl⟩

theorem Link.number?_eq_some_iff {l : Link} {n : Int} :
    l.number? = some n ↔ l.id = some (Json.ofInt n) ∧ ∃ i : Int64, n = i.toInt := by
  rw [Link.number?]
  split
  · next m hid =>
    rw [hid]
    cases m with
    | float bits => simp [Json.Number.int64?, Json.ofInt]
    | integer m =>
        simp only [Json.Number.int64?, Option.map_eq_some_iff, Decimal.fitInt64?_eq_some_iff,
          Json.ofInt, Option.some.injEq, Json.number.injEq, Json.Number.integer.injEq]
        constructor
        · rintro ⟨i, rfl, rfl⟩
          exact ⟨rfl, i, rfl⟩
        · rintro ⟨rfl, i, rfl⟩
          exact ⟨i, rfl, rfl⟩
  · next hid =>
    refine iff_of_false (by simp) ?_
    rintro ⟨h, -⟩
    exact hid _ h

theorem mem_linkNumbers_iff {g : Graph} {n : Int} :
    n ∈ g.links.filterMap Link.number? ↔ n ∈ g.linkNumbers := by
  simp only [List.mem_filterMap, Link.number?_eq_some_iff, linkNumbers, Set.mem_ofPred_eq]
  constructor
  · rintro ⟨l, hl, hid, hn⟩
    exact ⟨⟨l, hl, hid⟩, hn⟩
  · rintro ⟨⟨l, hl, hid⟩, hn⟩
    exact ⟨l, hl, hid, hn⟩

theorem lastNodeId?_eq {g : Graph} (h : g.ExplicitIds) :
    lastNodeId? g.nodes = (g.nodeIds.filterMap fun id => id.int64?.map Int64.toInt).max? := by
  rw [← filterMap_id_eq_nodeIds h, List.filterMap_filterMap]
  rfl

/-! ## What a part says of its numbers -/

/-- The fields of a part hang on its nodes and links alone. -/
def lastIds (nodes : List Node) (links : List Link) : OrderedMap String Json :=
  let extra : OrderedMap String Json := match lastNodeId? nodes with
    | some n => OrderedMap.empty.insert "last_node_id" (Json.ofInt n)
    | none => .empty
  extra.insert "last_link_id" (Json.ofInt (lastLinkId links))

theorem extra_select (g : Graph) (ids : List NodeId) :
    (g.select ids).extra = lastIds (g.select ids).nodes (g.select ids).links := rfl

theorem entries_lastIds (nodes : List Node) (links : List Link) :
    (lastIds nodes links).entries =
      ((lastNodeId? nodes).map fun n => ("last_node_id", Json.ofInt n)).toList ++
        [("last_link_id", Json.ofInt (lastLinkId links))] := by
  rw [lastIds]
  cases lastNodeId? nodes <;> rfl

theorem find?_last_node_id_lastIds (nodes : List Node) (links : List Link) :
    (lastIds nodes links).find? "last_node_id" = (lastNodeId? nodes).map Json.ofInt := by
  rw [OrderedMap.find?, entries_lastIds]
  cases lastNodeId? nodes <;> rfl

theorem find?_last_link_id_lastIds (nodes : List Node) (links : List Link) :
    (lastIds nodes links).find? "last_link_id" = some (Json.ofInt (lastLinkId links)) := by
  rw [OrderedMap.find?, entries_lastIds]
  cases lastNodeId? nodes <;> rfl

theorem isGreatest_lastLinkId_or (g : Graph) :
    IsGreatest g.linkNumbers (lastLinkId g.links) ∨
      g.linkNumbers = ∅ ∧ lastLinkId g.links = 0 := by
  rw [lastLinkId]
  cases hmax : (g.links.filterMap Link.number?).max? with
  | none => exact .inr ⟨(max?_eq_none_iff_eq_empty fun _ => mem_linkNumbers_iff).1 hmax, rfl⟩
  | some n => exact .inl ((max?_eq_some_iff_isGreatest fun _ => mem_linkNumbers_iff).1 hmax)

theorem saysLastIds_select (g : Graph) (ids : List NodeId) : (g.select ids).SaysLastIds := by
  have hnode := lastNodeId?_eq (g.explicitIds_select ids)
  refine ⟨?_, ?_, ?_, lastLinkId (g.select ids).links, ?_, ?_⟩
  · intro key hkey
    rw [extra_select, OrderedMap.keys, entries_lastIds] at hkey
    cases hlast : lastNodeId? (g.select ids).nodes with
    | none =>
        rw [hlast] at hkey
        exact .inr (by simpa using hkey)
    | some n =>
        rw [hlast] at hkey
        simpa using hkey
  · intro v
    rw [extra_select, find?_last_node_id_lastIds, Option.map_eq_some_iff, hnode]
    simp only [max?_eq_some_iff_isGreatest fun _ => mem_nodeNumbers_iff, eq_comm]
  · rw [extra_select, find?_last_node_id_lastIds, Option.map_eq_none_iff, hnode]
    exact max?_eq_none_iff_eq_empty fun _ => mem_nodeNumbers_iff
  · rw [extra_select, find?_last_link_id_lastIds]
  · exact isGreatest_lastLinkId_or (g.select ids)

/-! ## Parts of parts -/

theorem writtenFrom_eq_map_zip (start : Nat) (ns : List Node) :
    writtenFrom start ns =
      (ns.zip (idsFrom start ns)).map fun e => { e.1 with id := some e.2 } := by
  induction ns generalizing start with
  | nil => rfl
  | cons n ns ih => rw [writtenFrom, ih, idsFrom_cons, List.zip_cons_cons, List.map_cons]

/-- The nodes of a part are those with wanted ids, unchanged but for the ids. -/
theorem nodes_select_eq_map (g : Graph) (ids : List NodeId) :
    (g.select ids).nodes = ((g.nodes.zip g.nodeIds).filter fun e => e.2 ∈ ids).map
      fun e => { e.1 with id := some e.2 } := by
  rw [nodes_select, written, writtenFrom_eq_map_zip, List.filter_map]
  rfl

/-- Ids that are written down already are written down as they are. -/
theorem written_eq_self {g : Graph} (h : g.ExplicitIds) : g.written = g := by
  suffices hnodes : ∀ start, writtenFrom start g.nodes = g.nodes by rw [written, hnodes]
  intro start
  rw [ExplicitIds] at h
  generalize g.nodes = ns at h
  induction ns generalizing start with
  | nil => rfl
  | cons n ns ih =>
      obtain ⟨hid, hrest⟩ := List.forall_mem_cons.1 h
      rw [writtenFrom, ih (start + 1) hrest]
      cases hn : n.id with
      | none => exact absurd hn hid
      | some id =>
          have hsame : n.idAt start = id := by rw [Node.idAt, hn, Option.getD_some]
          rw [hsame, ← hn]

/-- Parts with the same nodes and links are the same. -/
theorem select_eq_select {g g' : Graph} {ids ids' : List NodeId}
    (hnodes : (g.select ids).nodes = (g'.select ids').nodes)
    (hlinks : (g.select ids).links = (g'.select ids').links) : g.select ids = g'.select ids' := by
  have hextra : (g.select ids).extra = (g'.select ids').extra := by
    rw [extra_select, extra_select, hnodes, hlinks]
  cases hg : g.select ids
  cases hg' : g'.select ids'
  rw [hg, hg'] at hnodes hlinks hextra
  cases hnodes
  cases hlinks
  cases hextra
  rfl

/-- A part of a part has the nodes whose ids are wanted both times. The links between them are
links between nodes of the first part. -/
theorem select_select (g : Graph) (ids ids' : List NodeId) :
    (g.select ids).select ids' = g.select (ids.filter (· ∈ ids')) := by
  have hnodes : ((g.select ids).select ids').nodes = (g.select (ids.filter (· ∈ ids'))).nodes := by
    rw [nodes_select, written_eq_self (g.explicitIds_select ids), nodes_select, nodes_select,
      List.filter_filter]
    refine List.filter_congr fun n _ => ?_
    simp [Bool.and_comm]
  have hids : ((g.select ids).select ids').nodeIds = (g.select (ids.filter (· ∈ ids'))).nodeIds := by
    rw [nodeIds, nodeIds, hnodes]
  have hkept : ∀ id ∈ (g.select (ids.filter (· ∈ ids'))).nodeIds, id ∈ (g.select ids).nodeIds := by
    intro id hid
    rw [← hids, nodeIds_select_eq_filter] at hid
    exact (List.mem_filter.1 hid).1
  refine select_eq_select hnodes ?_
  rw [links_select, hids, links_select g ids, links_select, List.filter_filter]
  refine List.filter_congr fun l _ => ?_
  rw [Bool.eq_iff_iff]
  simp only [Bool.and_eq_true, decide_eq_true_iff]
  exact ⟨And.left, fun h => ⟨h, hkept _ h.1, hkept _ h.2⟩⟩

theorem select_congr {g : Graph} {ids ids' : List NodeId} (h : ∀ id, id ∈ ids ↔ id ∈ ids') :
    g.select ids = g.select ids' := by
  have hnodes : (g.select ids).nodes = (g.select ids').nodes := by
    rw [nodes_select, nodes_select]
    simp only [h]
  refine select_eq_select hnodes ?_
  rw [links_select, links_select, nodeIds, nodeIds, hnodes]

/-- The nodes of a part are those of the graph whose ids are wanted, in their order and unchanged but
for the ids, which are written down; its links are those of the graph between these nodes, in their
order. A part of a part has the nodes wanted both times, so selecting again changes nothing, and the
order and number of the wanted ids do not matter. Beside nodes and links a part has the largest
numbers of its ids only. -/
theorem select_algebra (g : Graph) (ids ids' : List NodeId) :
    (g.select ids).nodeIds = g.nodeIds.filter (· ∈ ids) ∧
      (g.select ids).nodes = ((g.nodes.zip g.nodeIds).filter fun e => e.2 ∈ ids).map
        (fun e => { e.1 with id := some e.2 }) ∧
      (g.select ids).links = g.links.filter (fun l =>
        l.fromNode ∈ (g.select ids).nodeIds && l.toNode ∈ (g.select ids).nodeIds) ∧
      (g.select ids).select ids' = g.select (ids.filter (· ∈ ids')) ∧
      (g.select ids).select ids = g.select ids ∧
      ((∀ id, id ∈ ids ↔ id ∈ ids') → g.select ids = g.select ids') ∧
      (g.select ids).SaysLastIds := by
  have hagain : (g.select ids).select ids = g.select ids := by
    rw [select_select]
    apply select_congr
    simp
  exact ⟨nodeIds_select_eq_filter g ids, nodes_select_eq_map g ids, links_select g ids,
    select_select g ids ids', hagain, select_congr, saysLastIds_select g ids⟩

/-- Nodes with and without ids of their own, and links of which one leads nowhere. -/
def mixedGraph : Graph where
  nodes := [
    ⟨"relay", none, none, [], [], .empty⟩,
    ⟨"relay", some ⟨"12"⟩, none, [⟨"value", .empty⟩], [], .empty⟩,
    ⟨"relay", some ⟨"late"⟩, none, [], [], .empty⟩,
    ⟨"relay", none, none, [⟨"value", .empty⟩], [], .empty⟩]
  links := [
    ⟨some (Json.ofInt 40), ⟨"0"⟩, 0, ⟨"12"⟩, 0, .null⟩,
    ⟨some (Json.ofInt 7), ⟨"12"⟩, 0, ⟨"3"⟩, 0, .null⟩,
    ⟨some (Json.ofInt 50), ⟨"12"⟩, 0, ⟨"gone"⟩, 0, .null⟩]
  extra := .ofList [("last_node_id", Json.ofInt 99)]

/-- The last node keeps the id it had by its position, and the link to it stays. -/
theorem mixedGraph_select_algebra :
    (∀ id : NodeId, id ∈ [⟨"3"⟩, ⟨"12"⟩] ↔ id ∈ [⟨"12"⟩, ⟨"3"⟩, (⟨"12"⟩ : NodeId)]) ∧
      mixedGraph.select [⟨"3"⟩, ⟨"12"⟩] = mixedGraph.select [⟨"12"⟩, ⟨"3"⟩, ⟨"12"⟩] ∧
      (mixedGraph.select [⟨"3"⟩, ⟨"12"⟩]).nodeIds = [⟨"12"⟩, ⟨"3"⟩] ∧
      (mixedGraph.select [⟨"3"⟩, ⟨"12"⟩]).links.map Link.id = [some (Json.ofInt 7)] ∧
      (mixedGraph.select [⟨"3"⟩, ⟨"12"⟩]).extra.entries =
        [("last_node_id", Json.ofInt 12), ("last_link_id", Json.ofInt 7)] := by
  have hwanted : ∀ id : NodeId,
      id ∈ [⟨"3"⟩, ⟨"12"⟩] ↔ id ∈ [⟨"12"⟩, ⟨"3"⟩, (⟨"12"⟩ : NodeId)] := by
    intro id
    simp only [List.mem_cons, List.not_mem_nil, or_false]
    tauto
  obtain ⟨hids, -, -, -, -, hsame, -⟩ :=
    select_algebra mixedGraph [⟨"3"⟩, ⟨"12"⟩] [⟨"12"⟩, ⟨"3"⟩, ⟨"12"⟩]
  exact ⟨hwanted, hsame hwanted, hids.trans (by decide), by decide +kernel, by decide +kernel⟩

end Graph

end StepGraph
