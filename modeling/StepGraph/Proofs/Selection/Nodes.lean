import StepGraph.Graph.Selection
import StepGraph.Proofs.Comparison.NodeOrder

/-!
# The vertices of a part of a graph

Writing down the ids that the nodes of a graph go by changes nothing in what the graph is compiled
into: `Graph.written` has the nodes of the graph with their ids, and the same nodes are created for
both. The part `g.select ids` has those of them whose ids are wanted, and the links between them.

So the vertices of a part, in list order or by their ranks, are those of the whole graph whose ids
are wanted, but for their positions. All that a graph needs to be compiled is then there in the part
as well.
-/

namespace StepGraph

open Plan

namespace Graph

/-- The nodes of a list with the ids they go by written down. -/
def writtenFrom : Nat → List Node → List Node
  | _, [] => []
  | start, n :: ns => { n with id := some (n.idAt start) } :: writtenFrom (start + 1) ns

/-- The graph with the ids of its nodes written down. -/
def written (g : Graph) : Graph := { g with nodes := writtenFrom 0 g.nodes }

variable {catalog : Catalog} {g : Graph} {ids : List NodeId}

theorem explicitIds_writtenFrom (start : Nat) (ns : List Node) :
    ∀ n ∈ writtenFrom start ns, n.id ≠ none := by
  induction ns generalizing start with
  | nil => exact List.forall_mem_nil _
  | cons n ns ih => exact List.forall_mem_cons.2 ⟨Option.some_ne_none _, ih (start + 1)⟩

theorem map_idAt_writtenFrom (start : Nat) (ns : List Node) :
    (writtenFrom start ns).map (Node.idAt 0) = idsFrom start ns := by
  induction ns generalizing start with
  | nil => rfl
  | cons n ns ih =>
      rw [writtenFrom, List.map_cons, ih, idsFrom_cons]
      rfl

/-- The same ids are seen, and the same types, slots and values. -/
theorem makeNodes_writtenFrom (start : Nat) (seen : List NodeId) (a : Allotment) (ns : List Node) :
    makeNodes catalog start seen a (writtenFrom start ns) = makeNodes catalog start seen a ns := by
  induction ns generalizing start seen a with
  | nil => rfl
  | cons n ns ih =>
      have hid : Node.idAt start { n with id := some (n.idAt start) } = n.idAt start := rfl
      have hmake : ∀ id step, Plan.Node.make id { n with id := some (n.idAt start) } step a =
          Plan.Node.make id n step a := fun _ _ => rfl
      rw [writtenFrom]
      simp only [makeNodes, hid, hmake, ih]

theorem createNodes_written (start : Register) (g : Graph) :
    createNodes catalog start g.written.nodes = createNodes catalog start g.nodes := by
  rw [createNodes, createNodes, written, makeNodes_writtenFrom]

/-! ## Selecting nodes and links -/

theorem selectNodes_eq_filter (ids : List NodeId) (start : Nat) (ns : List Node) :
    selectNodes ids start ns = (writtenFrom start ns).filter fun n => n.idAt 0 ∈ ids := by
  induction ns generalizing start with
  | nil => rfl
  | cons n ns ih =>
      have hid : Node.idAt 0 { n with id := some (n.idAt start) } = n.idAt start := rfl
      rw [selectNodes, writtenFrom, List.filter_cons, hid, ih]
      simp only [decide_eq_true_iff]

theorem nodes_select (g : Graph) (ids : List NodeId) :
    (g.select ids).nodes = g.written.nodes.filter fun n => n.idAt 0 ∈ ids :=
  selectNodes_eq_filter ids 0 g.nodes

theorem explicitIds_written (g : Graph) : g.written.ExplicitIds := explicitIds_writtenFrom 0 g.nodes

theorem explicitIds_select (g : Graph) (ids : List NodeId) : (g.select ids).ExplicitIds := by
  intro n hn
  rw [nodes_select] at hn
  exact g.explicitIds_written n (List.mem_filter.1 hn).1

theorem nodeIds_written (g : Graph) : g.written.nodeIds = g.nodeIds := by
  rw [nodeIds, idsFrom_eq_map g.explicitIds_written]
  exact map_idAt_writtenFrom 0 g.nodes

/-- The nodes of a part keep the ids they go by. -/
theorem nodeIds_select_eq_filter (g : Graph) (ids : List NodeId) :
    (g.select ids).nodeIds = g.nodeIds.filter (· ∈ ids) := by
  rw [← nodeIds_written g, nodeIds, nodeIds, idsFrom_eq_map (g.explicitIds_select ids),
    idsFrom_eq_map g.explicitIds_written, nodes_select, List.filter_map]
  rfl

theorem filterMap_id_eq_nodeIds {g : Graph} (h : g.ExplicitIds) :
    g.nodes.filterMap Node.id = g.nodeIds := by
  rw [nodeIds, idsFrom_eq_map h, ← List.filterMap_eq_map]
  refine List.filterMap_congr fun n hn => ?_
  cases hid : n.id with
  | none => exact absurd hid (h n hn)
  | some id => simp [Node.idAt, hid]

/-- The links of a part are those that run between its nodes. -/
theorem links_select (g : Graph) (ids : List NodeId) :
    (g.select ids).links = g.links.filter fun l =>
      l.fromNode ∈ (g.select ids).nodeIds && l.toNode ∈ (g.select ids).nodeIds := by
  rw [← filterMap_id_eq_nodeIds (g.explicitIds_select ids)]
  rfl

/-- A link is kept if both its ends are. -/
theorem mem_links_select {l : Link} :
    l ∈ (g.select ids).links ↔ l ∈ g.links ∧ (l.fromNode ∈ ids ∧ l.fromNode ∈ g.nodeIds) ∧
      l.toNode ∈ ids ∧ l.toNode ∈ g.nodeIds := by
  have hkept : ∀ id, id ∈ (g.select ids).nodeIds ↔ id ∈ ids ∧ id ∈ g.nodeIds := by
    intro id
    rw [nodeIds_select_eq_filter, List.mem_filter, decide_eq_true_iff, and_comm]
  rw [links_select, List.mem_filter]
  simp only [Bool.and_eq_true, decide_eq_true_iff, hkept]

/-! ## Vertices -/

end Graph

namespace Vertex

/-- The vertex without its position. -/
def withoutPosition (v : Vertex) : Vertex := { v with position := 0 }

theorem Before.asymm {v w : Vertex} (h : v.Before w) : ¬ w.Before v := by
  rcases h with hlt | ⟨heq, hlt⟩
  · rintro (hgt | ⟨heq, -⟩)
    · exact Int64.lt_asymm hlt hgt
    · rw [heq] at hlt
      exact Int64.lt_irrefl hlt
  · rintro (hgt | ⟨-, hgt⟩)
    · rw [heq] at hgt
      exact Int64.lt_irrefl hgt
    · exact Nat.lt_asymm hlt hgt

/-- Vertices in list order may be picked before they are arranged or after. -/
theorem filter_arrange {vs : List Vertex} (h : vs.Pairwise fun v w => v.position < w.position)
    (p : Vertex → Bool) : (arrange vs).filter p = arrange (vs.filter p) := by
  refine List.Perm.eq_of_pairwise (fun v w _ _ hvw hwv => absurd hwv hvw.asymm)
    ((pairwise_before_arrange h).filter p) (pairwise_before_arrange (h.filter p)) ?_
  exact ((arrange_perm vs).filter p).trans (arrange_perm (vs.filter p)).symm

theorem map_withoutPosition_arrange (vs : List Vertex) :
    (arrange vs).map withoutPosition = arrange (vs.map withoutPosition) :=
  List.map_insertionSort _ _ withoutPosition vs fun _ _ _ _ => Iff.rfl

theorem forall₂_same_of_map_eq {vs ws : List Vertex}
    (h : vs.map withoutPosition = ws.map withoutPosition) : List.Forall₂ Same vs ws := by
  refine (map_eq_map_iff_forall₂.1 h).imp fun v w hvw => ?_
  obtain ⟨-, hid, hsaved, hstep⟩ := Vertex.mk.inj hvw
  exact ⟨hid, hsaved, hstep⟩

end Vertex

namespace Graph

variable {catalog : Catalog} {g : Graph} {ids : List NodeId}

theorem map_vertices_select (catalog : Catalog) (g : Graph) (ids : List NodeId) :
    ((g.select ids).vertices catalog).map Vertex.withoutPosition =
      ((g.written.vertices catalog).filter fun v => v.id ∈ ids).map Vertex.withoutPosition := by
  have hselected : ((g.select ids).vertices catalog).map Vertex.withoutPosition =
      (g.select ids).nodes.filterMap (vertex? catalog) :=
    map_verticesFrom_eq (g.explicitIds_select ids) 0
  have hwritten : (g.written.vertices catalog).map Vertex.withoutPosition =
      g.written.nodes.filterMap (vertex? catalog) :=
    map_verticesFrom_eq g.explicitIds_written 0
  have hfilter : ((g.written.vertices catalog).filter fun v => v.id ∈ ids).map
      Vertex.withoutPosition =
        (g.written.nodes.filterMap (vertex? catalog)).filter fun v => v.id ∈ ids := by
    rw [← hwritten, List.filter_map]
    rfl
  rw [hselected, hfilter]
  rw [nodes_select, List.filterMap_filter, List.filter_filterMap]
  refine List.filterMap_congr fun n _ => ?_
  rw [vertex?]
  cases catalog n.type with
  | none => simp
  | some step =>
      simp only [Option.map_some, Option.filter_some, decide_eq_true_iff]

/-- The vertices of a part by their ranks are those of the graph whose ids are wanted. -/
theorem map_arranged_select (catalog : Catalog) (g : Graph) (ids : List NodeId) :
    ((g.select ids).arranged catalog).map Vertex.withoutPosition =
      ((g.written.arranged catalog).filter fun v => v.id ∈ ids).map Vertex.withoutPosition := by
  have hplaced : (g.written.vertices catalog).Pairwise fun v w => v.position < w.position :=
    (pairwise_position_verticesFrom 0 g.written.nodes).2
  have hfilter := Vertex.filter_arrange hplaced fun v => v.id ∈ ids
  rw [arranged, arranged, Vertex.map_withoutPosition_arrange, map_vertices_select,
    ← Vertex.map_withoutPosition_arrange]
  exact congrArg (List.map Vertex.withoutPosition) hfilter.symm

theorem forall₂_same_arranged_select (catalog : Catalog) (g : Graph) (ids : List NodeId) :
    List.Forall₂ Vertex.Same ((g.written.arranged catalog).filter fun v => v.id ∈ ids)
      ((g.select ids).arranged catalog) :=
  Vertex.forall₂_same_of_map_eq (map_arranged_select catalog g ids).symm

theorem forall₂_same_vertices_select (catalog : Catalog) (g : Graph) (ids : List NodeId) :
    List.Forall₂ Vertex.Same ((g.written.vertices catalog).filter fun v => v.id ∈ ids)
      ((g.select ids).vertices catalog) :=
  Vertex.forall₂_same_of_map_eq (map_vertices_select catalog g ids).symm

/-! ## Parts of well-formed graphs -/

theorem wellFormed_written_iff : g.written.WellFormed catalog ↔ g.WellFormed catalog := by
  rw [@wellFormed_iff .first catalog, @wellFormed_iff .first catalog, createNodes_written]
  rfl

/-- The vertices of a part are vertices of the graph. -/
theorem exists_same_of_select {v : Vertex} (hv : v ∈ (g.select ids).vertices catalog) :
    ∃ w ∈ g.written.vertices catalog, w.Same v := by
  have hflip := (forall₂_same_vertices_select catalog g ids).flip
  obtain ⟨w, hw, hsame⟩ := exists_of_mem_forall₂ hflip hv
  exact ⟨w, (List.mem_filter.1 hw).1, hsame⟩

theorem exists_same_select {v : Vertex} (hv : v ∈ g.written.vertices catalog) (hid : v.id ∈ ids) :
    ∃ w ∈ (g.select ids).vertices catalog, v.Same w :=
  exists_of_mem_forall₂ (forall₂_same_vertices_select catalog g ids)
    (List.mem_filter.2 ⟨hv, by simpa using hid⟩)

/-- A part of a graph that can be compiled has all it needs to be compiled. -/
theorem WellFormed.select (h : g.WellFormed catalog) (ids : List NodeId) :
    (g.select ids).WellFormed catalog := by
  have hwritten := wellFormed_written_iff.2 h
  refine hwritten.of_same ?_ ?_ (fun v hv => ?_) fun l hl => ?_
  · rw [nodeIds_select_eq_filter]
    exact h.nodup.filter _
  · intro n hn
    rw [nodes_select] at hn
    exact hwritten.known n (List.mem_filter.1 hn).1
  · obtain ⟨w, hw, hsame⟩ := exists_same_of_select hv
    exact ⟨w, hw, hsame.symm⟩
  · obtain ⟨hlink, ⟨hfrom, -⟩, hto, -⟩ := mem_links_select.1 hl
    refine ⟨hlink, ?_⟩
    rintro v hv (hid | hid)
    · exact exists_same_select hv (hid ▸ hfrom)
    · exact exists_same_select hv (hid ▸ hto)

end Graph

end StepGraph
