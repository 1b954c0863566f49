import StepGraph.Proofs.Compilation

/-!
# The order in which the nodes of a graph run

An order of the vertices of a graph is topological if every vertex comes after those that it has
links from. The nodes of a compiled graph run in a topological order, and it is the least one in the
lexicographic order: no topological order of the vertices has, at the first place where the two
differ, a vertex of lower rank.

The schedule orders positions among the vertices by rank. `pick as is` lists the elements at some
positions; it turns schedules into topological orders, reaches every one of them, and keeps the
lexicographic order because the vertices stand by their ranks.
-/

namespace StepGraph

open Plan

/-- The order is made of all vertices, each after those that it has links from. -/
structure Graph.IsTopological (catalog : Catalog) (g : Graph) (order : List Vertex) : Prop where
  perm : order.Perm (g.vertices catalog)
  respects : ∀ before v after, order = before ++ v :: after →
    ∀ l ∈ g.links, l.toNode = v.id → l.fromNode ∈ before.map Vertex.id

/-- The elements of a list at some positions. -/
def pick {α : Type*} (as : List α) (is : List Nat) : List α := is.filterMap fun i => as[i]?

section

variable {α β : Type*} {as bs : List α} {is js : List Nat}

theorem pick_append (is js : List Nat) : pick as (is ++ js) = pick as is ++ pick as js :=
  List.filterMap_append

theorem pick_cons_of_lt {i : Nat} (hi : i < as.length) :
    pick as (i :: is) = as[i] :: pick as is := by
  rw [pick, List.filterMap_cons, List.getElem?_eq_getElem hi]
  rfl

theorem pick_map (f : α → β) : pick (as.map f) is = (pick as is).map f := by
  simp only [pick, List.map_filterMap, List.getElem?_map]

theorem mem_pick {a : α} : a ∈ pick as is ↔ ∃ i ∈ is, as[i]? = some a := List.mem_filterMap

theorem getElem?_pick (his : ∀ i ∈ is, i < as.length) (k : Nat) :
    (pick as is)[k]? = is[k]?.bind fun i => as[i]? := by
  induction is generalizing k with
  | nil => simp [pick]
  | cons i is ih =>
      obtain ⟨hi, his⟩ := List.forall_mem_cons.1 his
      rw [pick_cons_of_lt hi]
      cases k with
      | zero => simp [hi]
      | succ k => exact ih his k

theorem pick_range (as : List α) : pick as (List.range as.length) = as := by
  induction as with
  | nil => rfl
  | cons a as ih =>
      rw [List.length_cons, List.range_succ_eq_map, pick, List.filterMap_cons, List.filterMap_map]
      simpa [pick] using ih

theorem pick_perm (h : is.Perm (List.range as.length)) : (pick as is).Perm as := by
  have hperm := h.filterMap fun i => as[i]?
  exact hperm.trans (List.Perm.of_eq (pick_range as))

theorem forall₂_pick {r : α → β → Prop} {cs : List β} (h : List.Forall₂ r as cs) (is : List Nat) :
    List.Forall₂ r (pick as is) (pick cs is) := by
  induction is with
  | nil => exact List.Forall₂.nil
  | cons i is ih =>
      rcases Nat.lt_or_ge i as.length with hi | hi
      · have hi' : i < cs.length := h.length_eq ▸ hi
        rw [pick_cons_of_lt hi, pick_cons_of_lt hi']
        exact List.Forall₂.cons (h.get hi hi') ih
      · have hi' : cs.length ≤ i := h.length_eq ▸ hi
        rw [pick, pick, List.filterMap_cons, List.filterMap_cons, List.getElem?_eq_none hi,
          List.getElem?_eq_none hi']
        exact ih

/-- Every rearrangement picks the elements at some positions, each position once. -/
theorem exists_pick_of_perm (h : bs.Perm as) :
    ∃ is, is.Perm (List.range as.length) ∧ pick as is = bs := by
  have hrange : List.Forall₂ (fun a i => as[i]? = some a) as (List.range as.length) := by
    refine List.forall₂_iff_get.2 ⟨by simp, ?_⟩
    intro i hi hi'
    simp
  obtain ⟨is, his, hperm⟩ := List.perm_comp_forall₂ h hrange
  refine ⟨is, hperm, ?_⟩
  clear hrange hperm h
  induction his with
  | nil => rfl
  | @cons b i bs is hi _ ih =>
      rw [pick, List.filterMap_cons, hi]
      exact congrArg (List.cons b) ih

/-- Where an element is picked from, and what is picked before and after it. -/
theorem pick_eq_append_cons {before after : List α} {a : α}
    (h : pick as is = before ++ a :: after) :
    ∃ earlier i later, is = earlier ++ i :: later ∧ pick as earlier = before ∧ as[i]? = some a ∧
      pick as later = after := by
  obtain ⟨first, rest, rfl, hfirst, hrest⟩ := List.filterMap_eq_append_iff.1 h
  obtain ⟨skipped, i, later, rfl, hskipped, hi, hlater⟩ := List.filterMap_eq_cons_iff.1 hrest
  refine ⟨first ++ skipped, i, later, by simp, ?_, hi, hlater⟩
  have hnone : pick as skipped = [] := List.filterMap_eq_nil_iff.2 hskipped
  rw [pick_append, hnone, List.append_nil]
  exact hfirst

/-- In a list that is sorted, picking keeps the lexicographic order. -/
theorem lexLE_pick {r : α → α → Prop} (has : as.Pairwise r) (his : ∀ i ∈ is, i < as.length)
    (hjs : ∀ j ∈ js, j < as.length) (h : LexLE (· < ·) is js) :
    LexLE r (pick as is) (pick as js) := by
  rcases h with rfl | h
  · exact Or.inl rfl
  refine Or.inr ?_
  induction h with
  | nil =>
      rw [pick_cons_of_lt (hjs _ (List.mem_cons_self ..))]
      exact List.Lex.nil
  | @cons i is js _ ih =>
      obtain ⟨hi, his⟩ := List.forall_mem_cons.1 his
      rw [pick_cons_of_lt hi, pick_cons_of_lt hi]
      exact List.Lex.cons (ih his (List.forall_mem_cons.1 hjs).2)
  | @rel i is j js hij =>
      have hi := his i (List.mem_cons_self ..)
      have hj := hjs j (List.mem_cons_self ..)
      rw [pick_cons_of_lt hi, pick_cons_of_lt hj]
      exact List.Lex.rel (List.pairwise_iff_getElem.1 has i j hi hj hij)

end

namespace Plan.NodeGraph

variable {catalog : Catalog} {g : Graph} {ng : NodeGraph} {options : ExportOptions}
  {order : List Nat} {p : Plan}

theorem Represents.map_id_getElem? (h : ng.Represents catalog g) (i : Nat) :
    ng.nodes[i]?.map Node.id = (g.arranged catalog)[i]?.map Vertex.id := by
  rw [← List.getElem?_map, h.map_id, List.getElem?_map]

theorem Represents.length_arranged (h : ng.Represents catalog g) :
    (g.arranged catalog).length = ng.nodes.length :=
  h.makes.length_eq

/-- Schedules are the positions of topological orders. -/
theorem Represents.isTopological_pick_iff (h : ng.Represents catalog g)
    {dependencies : List (List Nat)}
    (hdeps : ∀ i d, DependsOn dependencies i d ↔ ∃ l ∈ g.links, Connects ng.nodes l d i)
    (hfits : ∀ l ∈ g.links, Fits ng.nodes l) (hperm : order.Perm (List.range ng.nodes.length)) :
    g.IsTopological catalog (pick (g.arranged catalog) order) ↔
      IsSchedule ng.nodes.length dependencies order := by
  have hmem : ∀ {is : List Nat} {id : NodeId}, id ∈ (pick (g.arranged catalog) is).map Vertex.id ↔
      ∃ i ∈ is, ng.nodes[i]?.map Node.id = some id := by
    intro is id
    simp only [← pick_map, mem_pick, List.getElem?_map, h.map_id_getElem?]
  constructor
  · intro htopological
    refine ⟨hperm, ?_⟩
    rintro before i after rfl d hd
    obtain ⟨l, hl, hfrom, hto⟩ := (hdeps i d).1 hd
    rw [h.map_id_getElem?] at hto
    obtain ⟨v, hv, hvid⟩ := Option.map_eq_some_iff.1 hto
    obtain ⟨hi, hiv⟩ := List.getElem?_eq_some_iff.1 hv
    have hsplit : pick (g.arranged catalog) (before ++ i :: after) =
        pick (g.arranged catalog) before ++ v :: pick (g.arranged catalog) after := by
      rw [pick_append, pick_cons_of_lt hi, hiv]
    obtain ⟨d', hd', hid⟩ := hmem.1 (htopological.respects _ v _ hsplit l hl hvid.symm)
    rwa [eq_of_getElem?_id h.nodup_ids hfrom hid]
  · intro hschedule
    refine ⟨?_, ?_⟩
    · rw [← h.length_arranged] at hperm
      exact (pick_perm hperm).trans (g.arranged_perm catalog)
    · intro before v after hsplit l hl hvid
      obtain ⟨earlier, i, later, rfl, rfl, hi, -⟩ := pick_eq_append_cons hsplit
      obtain ⟨source, hsource, -, -, -, -, hsid, -⟩ := hfits l hl
      obtain ⟨d, hd⟩ := List.mem_iff_getElem?.1 hsource
      have hfrom : ng.nodes[d]?.map Node.id = some l.fromNode := by rw [hd, ← hsid]; rfl
      have hto : ng.nodes[i]?.map Node.id = some l.toNode := by
        rw [h.map_id_getElem?, hi, hvid]
        rfl
      exact hmem.2 ⟨d, hschedule.respects _ i _ rfl d ((hdeps i d).2 ⟨l, hl, hfrom, hto⟩), hfrom⟩

/-- The vertices in the order in which their nodes run. -/
theorem Compiles.exists_isTopological (hrepresents : ng.Represents catalog g)
    (h : ng.Compiles g options order p) :
    (pick (g.arranged catalog) order).map Vertex.id = p.stages.map Stage.node ∧
      g.IsTopological catalog (pick (g.arranged catalog) order) ∧
      ∀ other, g.IsTopological catalog other →
        LexLE Vertex.Before (pick (g.arranged catalog) order) other := by
  obtain ⟨dependencies, hdeps, hschedule⟩ := h.scheduled
  have horder := schedule_isSchedule hschedule
  refine ⟨?_, ?_, ?_⟩
  · rw [h.stages, List.map_filterMap, ← pick_map, pick, ← hrepresents.map_id]
    refine List.filterMap_congr fun i _ => ?_
    rw [List.getElem?_map, Option.map_map]
    rfl
  · exact (hrepresents.isTopological_pick_iff hdeps h.fits horder.perm).2 horder
  · intro other hother
    obtain ⟨js, hjs, rfl⟩ := exists_pick_of_perm
      (hother.perm.trans (g.arranged_perm catalog).symm)
    rw [hrepresents.length_arranged] at hjs
    have hleast := schedule_least hschedule
      ((hrepresents.isTopological_pick_iff hdeps h.fits hjs).1 hother)
    refine lexLE_pick (g.pairwise_before_arranged catalog) ?_ ?_ hleast
    · intro i hi
      rw [hrepresents.length_arranged]
      exact horder.mem_iff.1 hi
    · intro j hj
      rw [hrepresents.length_arranged]
      exact List.mem_range.1 (hjs.mem_iff.1 hj)

end Plan.NodeGraph

namespace Plan

/-- An order that nodes are put in is the least schedule of their dependencies. So the nodes of a
compiled graph run in the least topological order of its vertices, which are all of its nodes. -/
theorem stages_least_topological_order :
    (∀ (nodes : List Node) (dependencies : List (List Nat)) (order : List Nat),
      scheduleNodes nodes dependencies = .ok order →
        IsSchedule nodes.length dependencies order ∧
          ∀ other, IsSchedule nodes.length dependencies other → LexLE (· < ·) order other) ∧
    ∀ (start : Register) (catalog : Catalog) (g : Graph) (options : ExportOptions) (p : Plan),
      compileFrom start catalog g options = .ok p →
        (g.vertices catalog).map Vertex.saved = g.nodes ∧
          ∃ order, order.map Vertex.id = p.stages.map Stage.node ∧
            g.IsTopological catalog order ∧
            ∀ other, g.IsTopological catalog other → LexLE Vertex.Before order other := by
  constructor
  · intro nodes dependencies order h
    have hschedule := scheduleNodes_eq_ok_iff.1 h
    exact ⟨schedule_isSchedule hschedule, fun other hother => schedule_least hschedule hother⟩
  · intro start catalog g options p h
    obtain ⟨ng, order, hcreate, hrepresents, hcompiles⟩ := compiles_of_compileFrom_eq_ok h
    obtain ⟨-, hknown, -⟩ := createNodes_isOk_iff.1 ⟨ng, hcreate⟩
    exact ⟨(Graph.map_saved_verticesFrom hknown).1, _, hcompiles.exists_isTopological hrepresents⟩

/-- Two nodes without inputs and outputs. -/
def relayNodes : List Node :=
  [⟨⟨"late"⟩, "relay", relayStep, .empty, [], [], [], 0⟩,
    ⟨⟨"early"⟩, "relay", relayStep, .empty, [], [], [], 0⟩]

theorem relays_least_topological_order :
    (scheduleNodes relayNodes [[1]] = .ok [1, 0] ∧ IsSchedule relayNodes.length [[1]] [1, 0] ∧
      ∀ other, IsSchedule relayNodes.length [[1]] other → LexLE (· < ·) [1, 0] other) ∧
    ∃ p, compileFrom .first relayCatalog relayGraph .default = .ok p ∧
      ∃ order, order.map Vertex.id = p.stages.map Stage.node ∧
        relayGraph.IsTopological relayCatalog order ∧
        ∀ other, relayGraph.IsTopological relayCatalog other →
          LexLE Vertex.Before order other := by
  constructor
  · exact ⟨rfl, stages_least_topological_order.1 relayNodes [[1]] [1, 0] rfl⟩
  · exact ⟨_, rfl,
      (stages_least_topological_order.2 .first relayCatalog relayGraph .default _ rfl).2⟩

end Plan

end StepGraph
