import StepGraph.Proofs.Comparison.Pairing

/-!
# With distinct order hints the order of the nodes does not matter

Registers are given to the nodes in the order of the list, and a hidden input that several steps
declare is the one of the first of them. All else goes by the order hints. So if these are distinct
and the ids do not depend on positions, a rearranged graph has the same vertices by their ranks, and
the same comes out, but for the registers of the inputs and for what else than its type is declared
of a hidden input.
-/

namespace StepGraph

open Plan

namespace Graph

variable {catalog : Catalog} {g g' : Graph}

/-- Every node has an id of its own. -/
def ExplicitIds (g : Graph) : Prop := ∀ n ∈ g.nodes, n.id ≠ none

/-- No two nodes have the same order hint; none counts as zero. -/
def DistinctHints (g : Graph) : Prop := (g.nodes.map fun n => n.order.getD 0).Nodup

instance (g : Graph) : Decidable g.ExplicitIds := List.decidableBAll _ _

instance (g : Graph) : Decidable g.DistinctHints := List.nodupDecidable _

/-- The vertex of a node with an id, without a position. -/
def vertex? (catalog : Catalog) (n : Node) : Option Vertex :=
  (catalog n.type).map fun step => ⟨0, n.idAt 0, n, step⟩

theorem idAt_eq {n : Node} (h : n.id ≠ none) (i j : Nat) : n.idAt i = n.idAt j := by
  cases hid : n.id with
  | none => exact absurd hid h
  | some id => simp [Node.idAt, hid]

theorem idsFrom_eq_map {ns : List Node} (h : ∀ n ∈ ns, n.id ≠ none) (start : Nat) :
    idsFrom start ns = ns.map fun n => n.idAt 0 := by
  induction ns generalizing start with
  | nil => rfl
  | cons n ns ih =>
      obtain ⟨hn, hns⟩ := List.forall_mem_cons.1 h
      rw [idsFrom_cons, ih hns, List.map_cons, idAt_eq hn start 0]

theorem map_verticesFrom_eq {ns : List Node} (h : ∀ n ∈ ns, n.id ≠ none) (start : Nat) :
    (verticesFrom catalog start ns).map (fun v => { v with position := 0 }) =
      ns.filterMap (vertex? catalog) := by
  induction ns generalizing start with
  | nil => rfl
  | cons n ns ih =>
      obtain ⟨hn, hns⟩ := List.forall_mem_cons.1 h
      rw [verticesFrom, List.filterMap_cons, vertex?]
      cases catalog n.type with
      | none => exact ih hns _
      | some step =>
          rw [List.map_cons, ih hns, idAt_eq hn start 0]
          rfl

theorem map_hint_verticesFrom_sublist (start : Nat) (ns : List Node) :
    ((verticesFrom catalog start ns).map Vertex.hint).Sublist
      (ns.map fun n => n.order.getD 0) := by
  induction ns generalizing start with
  | nil => exact List.Sublist.slnil
  | cons n ns ih =>
      rw [verticesFrom]
      split
      · exact (ih (start + 1)).cons_cons _
      · exact (ih (start + 1)).cons _

/-- Vertices with distinct hints stand by their hints alone. -/
theorem pairwise_hint_arranged (h : g.DistinctHints) :
    (g.arranged catalog).Pairwise fun v w => v.hint < w.hint := by
  have hnodup : ((g.arranged catalog).map Vertex.hint).Nodup :=
    (((g.arranged_perm catalog).map Vertex.hint).nodup_iff).2
      (List.Nodup.sublist (map_hint_verticesFrom_sublist 0 g.nodes) h)
  refine (g.pairwise_before_arranged catalog).imp₂ ?_ (List.pairwise_map.1 hnodup)
  rintro v w (hlt | ⟨heq, -⟩) hne
  · exact hlt
  · exact absurd heq hne

/-- Only the order of the nodes may differ. -/
theorem alike_of_nodes_perm (hnodes : g.nodes.Perm g'.nodes) (hlinks : g.links = g'.links)
    (hids : g.ExplicitIds) (hhints : g.DistinctHints) : g.Alike catalog g' := by
  have hids' : g'.ExplicitIds := fun n hn => hids n (hnodes.mem_iff.2 hn)
  have hhints' : g'.DistinctHints := ((hnodes.map _).nodup_iff).1 hhints
  have hperm : ((g.arranged catalog).map fun v => { v with position := 0 }).Perm
      ((g'.arranged catalog).map fun v => { v with position := 0 }) := by
    refine ((g.arranged_perm catalog).map _).trans
      (List.Perm.trans ?_ ((g'.arranged_perm catalog).map _).symm)
    rw [vertices, vertices, map_verticesFrom_eq hids, map_verticesFrom_eq hids']
    exact hnodes.filterMap _
  have hsorted : ∀ {g : Graph}, g.DistinctHints →
      ((g.arranged catalog).map fun v => ({ v with position := 0 } : Vertex)).Pairwise
        fun v w => v.hint < w.hint :=
    fun h => List.pairwise_map.2 (pairwise_hint_arranged h)
  have harranged := List.Perm.eq_of_pairwise
    (fun v w _ _ hvw hwv => absurd hvw (Int64.lt_asymm hwv)) (hsorted hhints) (hsorted hhints')
    hperm
  refine ⟨hnodes, ?_, ?_, fun l => by rw [hlinks]⟩
  · rw [nodeIds, nodeIds, idsFrom_eq_map hids, idsFrom_eq_map hids']
    exact hnodes.map _
  · refine (map_eq_map_iff_forall₂.1 harranged).imp fun v w hvw => ?_
    obtain ⟨-, hid, hsaved, hstep⟩ := Vertex.mk.inj hvw
    exact ⟨hid, hsaved, hstep⟩

end Graph

namespace Plan

variable {start : Register} {catalog : Catalog} {g : Graph} {options : ExportOptions}
  {ng : NodeGraph} {order : List Nat} {p : Plan}

/-- The exported inputs that are not hidden. -/
def visibleInputs (p : Plan) : List (String × Input) :=
  p.inputs.entries.filter fun e => e.2.group ≠ .hidden

theorem NodeGraph.Represents.group_ne_hidden (h : ng.Represents catalog g) {i : Input}
    (hi : i ∈ ng.freeInputs g) : i.group ≠ .hidden := by
  obtain ⟨⟨n, hn, hfeed⟩, -⟩ := NodeGraph.mem_freeInputs.1 hi
  exact h.group_ne_hidden_of_mem_feeds hn hfeed

section

variable (hcreate : createNodes catalog start g.nodes = .ok ng)
  (hc : ng.Compiles g options order p)

include hcreate hc

/-- The inputs that no link feeds are the visible ones. -/
theorem visibleInputs_eq :
    p.visibleInputs = (exportNames ng.hidden.keys ((ng.freeInputs g).map Input.name)).zip
      (ng.freeInputs g) := by
  have h := createNodes_eq_ok hcreate
  rw [visibleInputs, hc.inputs, List.filter_append, List.filter_eq_nil_iff.2, List.nil_append,
    List.filter_eq_self]
  · rintro ⟨x, i⟩ hi
    simpa using h.group_ne_hidden (List.of_mem_zip hi).2
  · rintro ⟨x, i⟩ hi
    simpa using group_of_createNodes hcreate (OrderedMap.find?_eq_some_iff.2 hi)

/-- The hidden ones are those that the nodes share. -/
theorem find?_inputs_hidden_iff {x : String} {i : Input} :
    p.inputs.find? x = some i ∧ i.group = .hidden ↔ ng.hidden.find? x = some i := by
  have h := createNodes_eq_ok hcreate
  rw [OrderedMap.find?_eq_some_iff, hc.inputs, List.mem_append, ← OrderedMap.find?_eq_some_iff]
  constructor
  · rintro ⟨hi | hi, hgroup⟩
    · exact hi
    · exact absurd hgroup (h.group_ne_hidden (List.of_mem_zip hi).2)
  · exact fun hi => ⟨Or.inl hi, group_of_createNodes hcreate hi⟩

end

/-- Two graphs with the same nodes in another order, all with ids and with distinct order hints, are
both compiled or none. If they are, their nodes run in the same order, the same outputs are exported
in the same order, from registers equally far behind the first ones, and the same visible inputs;
the hidden inputs have the same names and types; and they do the same with all parameters. -/
theorem compileFrom_nodes_perm (start start' : Register) (catalog : Catalog) (g g' : Graph)
    (options : ExportOptions) (hnodes : g.nodes.Perm g'.nodes) (hlinks : g.links = g'.links)
    (hids : g.ExplicitIds) (hhints : g.DistinctHints) :
    ((∃ p, compileFrom start catalog g options = .ok p) ↔
      ∃ p, compileFrom start' catalog g' options = .ok p) ∧
    ∀ p p', compileFrom start catalog g options = .ok p →
      compileFrom start' catalog g' options = .ok p' →
        p.stages.map Stage.node = p'.stages.map Stage.node ∧
        List.Forall₂ (fun o o' => o.name = o'.name ∧ o.typeTag = o'.typeTag ∧
          Register.Shifted start start' o.register o'.register) p.outputs p'.outputs ∧
        p.visibleInputs.map (fun e => (e.1, Input.declaration e.2)) =
          p'.visibleInputs.map (fun e => (e.1, Input.declaration e.2)) ∧
        (∀ x type, (∃ i, (p.inputs.find? x = some i ∧ i.group = .hidden) ∧ i.typeTag = type) ↔
          ∃ i, (p'.inputs.find? x = some i ∧ i.group = .hidden) ∧ i.typeTag = type) ∧
        ∀ (a a' : Artifact), a.plan = p → a'.plan = p' → ∀ params,
          a.process params = a'.process params ∧ a.validate params = a'.validate params ∧
            a.fingerprint params = a'.fingerprint params := by
  have halike : g.Alike catalog g' := Graph.alike_of_nodes_perm hnodes hlinks hids hhints
  refine ⟨halike.compileFrom_isOk_iff start start' options options, fun p p' hp hp' => ?_⟩
  obtain ⟨ng, order, hcreate, h, hc⟩ := compiles_of_compileFrom_eq_ok hp
  obtain ⟨ng', order', hcreate', h', hc'⟩ := compiles_of_compileFrom_eq_ok hp'
  have m := NodeGraph.mirrors_of_alike h h' halike
  refine ⟨(m.plan h h' halike.links hc hc').map_node, ?_, ?_, ?_, ?_⟩
  · exact m.outputs_shifted h h' halike
      (NodeGraph.shifted_next_of_alike halike hcreate hcreate') hc hc'
  · rw [visibleInputs_eq hcreate hc, visibleInputs_eq hcreate' hc',
      ← m.names_eq h h' hc.fits halike.links, map_eq_map_iff_forall₂]
    refine (SameEntries.zip _ (m.freeInputs h h' hc.fits halike.links)).imp fun e e' he => ?_
    rw [he.1, he.2.declaration]
  · intro x type
    simp only [find?_inputs_hidden_iff hcreate hc, find?_inputs_hidden_iff hcreate' hc']
    obtain ⟨hleft, hright⟩ := optionRel_iff.1 (m.hidden x)
    constructor
    · rintro ⟨i, hi, rfl⟩
      obtain ⟨i', hi', htype, -⟩ := hleft i hi
      exact ⟨i', hi', htype.symm⟩
    · rintro ⟨i', hi', rfl⟩
      obtain ⟨i, hi, htype, -⟩ := hright i' hi'
      exact ⟨i, hi, htype⟩
  · exact fun a a' ha ha' params => m.runs_eq h h' halike hc hc' ha ha' params

/-- The three relays with distinct order hints. -/
def rankedGraph : Graph :=
  { relayGraph with nodes := [
      ⟨"relay", some ⟨"late"⟩, some 3, [⟨"value", .empty⟩], [], .empty⟩,
      ⟨"relay", some ⟨"early"⟩, some 1, [], [], .empty⟩,
      ⟨"relay", some ⟨"spare"⟩, some 2, [], [], .empty⟩] }

/-- The reversed list gives the same schedule and the same result. -/
theorem ranked_nodes_perm :
    rankedGraph.nodes.Perm rankedGraph.nodes.reverse ∧
    rankedGraph.ExplicitIds ∧ rankedGraph.DistinctHints ∧
    ∃ p p', compileFrom .first relayCatalog rankedGraph .default = .ok p ∧
      compileFrom ⟨7⟩ relayCatalog { rankedGraph with nodes := rankedGraph.nodes.reverse }
        .default = .ok p' ∧
      p'.stages.map Stage.node = [⟨"early"⟩, ⟨"spare"⟩, ⟨"late"⟩] ∧
      (Artifact.ofPlan "reversed" p').process
          (.ofList [("value", .string "a"), ("value_2", .string "b")]) =
        pure ⟨[.string "b", .string "a"], .empty⟩ := by
  have hperm : rankedGraph.nodes.Perm rankedGraph.nodes.reverse := (List.reverse_perm _).symm
  have hids : rankedGraph.ExplicitIds := by decide
  have hhints : rankedGraph.DistinctHints := by decide
  obtain ⟨-, hcompiled⟩ := compileFrom_nodes_perm .first ⟨7⟩ relayCatalog rankedGraph
    { rankedGraph with nodes := rankedGraph.nodes.reverse } .default hperm rfl hids hhints
  obtain ⟨hstages, -, -, -, hruns⟩ := hcompiled _ _ rfl rfl
  refine ⟨hperm, hids, hhints, _, _, rfl, rfl, hstages.symm, ?_⟩
  exact (hruns (Artifact.ofPlan "ranked" _) (Artifact.ofPlan "reversed" _) rfl rfl _).1.symm

end Plan

end StepGraph
