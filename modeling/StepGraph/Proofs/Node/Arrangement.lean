import StepGraph.Proofs.Node.Hidden
import StepGraph.Proofs.Sorting

/-!
# The nodes of a graph by their order hints

`createNodes` sorts the nodes it makes by their order hints. They are then the nodes of the vertices
of the graph by their ranks, one for one, and `NodeGraph.Represents` says so, together with what the
registers and the shared hidden inputs are.

`createNodes_isOk_iff` says when there is a result: the ids are distinct, all types are known,
hidden inputs of one name have one type, and each node has the inputs that its slots name, each as
often as it is named. `createNodes_eq_error_iff` says how it fails where all but the hidden inputs
is as it should be.
-/

namespace StepGraph

open Plan

namespace Graph

/-- The names of the hidden inputs of a graph, in the order of their first declaration. -/
def hiddenNames (catalog : Catalog) (g : Graph) : List String :=
  ((g.vertices catalog).flatMap fun v => v.step.schema.hidden.keys).eraseDups

variable {catalog : Catalog}

/-- If all types are known, every node has its vertex. -/
theorem map_saved_verticesFrom {start : Nat} {ns : List Node}
    (h : ∀ n ∈ ns, ∃ step, catalog n.type = some step) :
    (verticesFrom catalog start ns).map Vertex.saved = ns ∧
      (verticesFrom catalog start ns).map Vertex.id = idsFrom start ns := by
  induction ns generalizing start with
  | nil => simp [verticesFrom]
  | cons n ns ih =>
      obtain ⟨⟨step, hstep⟩, hns⟩ := List.forall_mem_cons.1 h
      obtain ⟨hsaved, hids⟩ := @ih (start + 1) hns
      simp [verticesFrom, hstep, hsaved, hids]

end Graph

namespace Plan

theorem map_eq_map_iff_forall₂ {α β γ : Type*} {f : α → γ} {f' : β → γ} {as : List α}
    {bs : List β} : as.map f = bs.map f' ↔ List.Forall₂ (fun a b => f a = f' b) as bs := by
  rw [← List.forall₂_eq_eq_eq, List.forall₂_map_left_iff, List.forall₂_map_right_iff]

theorem exists_of_mem_forall₂ {α β : Type*} {r : α → β → Prop} {as : List α} {bs : List β}
    (h : List.Forall₂ r as bs) {a : α} (ha : a ∈ as) : ∃ b ∈ bs, r a b := by
  induction h with
  | nil => simp at ha
  | @cons a' b as bs hab _ ih =>
      rcases List.mem_cons.1 ha with rfl | ha
      · exact ⟨b, List.mem_cons_self .., hab⟩
      · obtain ⟨c, hc, hac⟩ := ih ha
        exact ⟨c, List.mem_cons_of_mem b hc, hac⟩

theorem forall₂_nodesFrom {hidden : InputMap} {a : Allotment} {vs : List Vertex} {ns : List Node}
    (h : nodesFrom hidden a vs = some ns) :
    List.Forall₂ (fun v n => ∃ start, v.Makes hidden start n) vs ns := by
  induction vs generalizing a ns with
  | nil =>
      cases h
      exact List.Forall₂.nil
  | cons v vs ih =>
      obtain ⟨n, rest, hnode, hrest, rfl⟩ := nodesFrom_cons_eq_some.1 h
      exact List.Forall₂.cons ⟨a.next, Vertex.makes_of_node? hnode⟩ (ih hrest)

/-- Nodes can be made if each vertex has the inputs that its slots name. -/
theorem exists_nodesFrom_iff {hidden : InputMap} {a : Allotment} {vs : List Vertex} :
    (∃ ns, nodesFrom hidden a vs = some ns) ↔
      ∀ v ∈ vs, v.slotNames.Subperm (v.step.schema.visible.map fun e => e.2.1) := by
  induction vs generalizing a with
  | nil => simp [nodesFrom]
  | cons v vs ih =>
      have hnode : (∃ n, v.node? hidden a.next = some n) ↔
          v.slotNames.Subperm (v.step.schema.visible.map fun e => e.2.1) := by
        rw [← map_name_freshInputs a.next, ← exists_takeInputs_iff]
        simp only [Vertex.node?, Option.map_eq_some_iff]
        constructor
        · rintro ⟨-, r, hr, -⟩
          exact ⟨r, hr⟩
        · rintro ⟨r, hr⟩
          exact ⟨_, r, hr, rfl⟩
      rw [List.forall_mem_cons, ← hnode, ← ih (a := a.after v.step)]
      simp only [nodesFrom_cons_eq_some]
      constructor
      · rintro ⟨-, n, rest, hn, hrest, -⟩
        exact ⟨⟨n, hn⟩, rest, hrest⟩
      · rintro ⟨⟨n, hn⟩, rest, hrest⟩
        exact ⟨_, n, rest, hn, hrest, rfl⟩

/-! ## The nodes of a graph -/

/-- The allotment after all nodes of a graph, with registers from `start` on. -/
def allotment (catalog : Catalog) (start : Register) (g : Graph) : Allotment :=
  Allotment.allot ⟨.empty, start⟩ (g.vertices catalog)

/-- The nodes are those of the vertices of the graph by their ranks, with separate registers, and
the hidden inputs are those that the steps declare. -/
structure NodeGraph.Represents (catalog : Catalog) (g : Graph) (ng : NodeGraph) : Prop where
  nodeIds : (g.vertices catalog).map Vertex.id = g.nodeIds
  nodup : g.nodeIds.Nodup
  makes : List.Forall₂ (fun v n => ∃ start, v.Makes ng.hidden start n) (g.arranged catalog) ng.nodes
  separate : Separate ng.next (feedRegisters ng.nodes ++ ng.hidden.values.map Input.registers)
  keys_hidden : ng.hidden.keys = g.hiddenNames catalog
  agrees : ∀ v ∈ g.vertices catalog, ∀ e ∈ v.step.schema.hidden.entries,
    ∃ i, ng.hidden.find? e.1 = some i ∧ i.typeTag = e.2.typeTag

theorem map_id_of_forall₂_makes {hidden : InputMap} {vs : List Vertex} {ns : List Node}
    (h : List.Forall₂ (fun v n => ∃ start, v.Makes hidden start n) vs ns) :
    ns.map Node.id = vs.map Vertex.id := by
  induction h with
  | nil => rfl
  | cons hmakes _ ih =>
      obtain ⟨_, hmakes⟩ := hmakes
      rw [List.map_cons, List.map_cons, ih, hmakes.id]

theorem NodeGraph.Represents.map_id {catalog : Catalog} {g : Graph} {ng : NodeGraph}
    (h : ng.Represents catalog g) : ng.nodes.map Node.id = (g.arranged catalog).map Vertex.id :=
  map_id_of_forall₂_makes h.makes

theorem NodeGraph.Represents.map_id_perm {catalog : Catalog} {g : Graph} {ng : NodeGraph}
    (h : ng.Represents catalog g) : (ng.nodes.map Node.id).Perm g.nodeIds := by
  rw [h.map_id, ← h.nodeIds]
  exact (g.arranged_perm catalog).map Vertex.id

theorem NodeGraph.Represents.nodup_ids {catalog : Catalog} {g : Graph} {ng : NodeGraph}
    (h : ng.Represents catalog g) : (ng.nodes.map Node.id).Nodup :=
  h.map_id_perm.nodup_iff.2 h.nodup

theorem createNodes_eq_ok {catalog : Catalog} {start : Register} {g : Graph} {ng : NodeGraph}
    (h : createNodes catalog start g.nodes = .ok ng) : ng.Represents catalog g := by
  obtain ⟨⟨ns, a⟩, hmake, hng⟩ := Except.bind_eq_ok_iff.1 h
  cases hng
  obtain ⟨⟨-, hnodup⟩, hknown, hagrees, rfl, hns⟩ := makeNodes_eq_ok_iff.1 hmake
  refine ⟨(Graph.map_saved_verticesFrom hknown).2, hnodup, ?_, ?_, ?_, hagrees⟩
  · rw [Graph.arranged, Vertex.arrange, ← sortBy_eq_insertionSort]
    refine forall₂_sortBy ?_ (forall₂_nodesFrom hns)
    rintro v n ⟨_, hmakes⟩
    exact hmakes.order.symm
  · have hempty : Separate (Allotment.mk .empty start).next
        ([] ++ (Allotment.mk .empty start).hiddenRegisters) := Separate.nil
    refine (separate_nodesFrom hempty hns).perm (List.Perm.append_right _ ?_)
    exact ((sortBy_perm Node.order ns).flatMap_right Node.feeds).map Input.registers
  · have hkeys := (Allotment.declares_allot start (g.vertices catalog)).keys_eq
    rwa [Entries.keys_firsts, keys_hiddenDeclarations] at hkeys

/-- The next free register comes after one for each visible input and one for each name of hidden
inputs. -/
theorem next_of_createNodes {catalog : Catalog} {start : Register} {g : Graph} {ng : NodeGraph}
    (h : createNodes catalog start g.nodes = .ok ng) :
    ng.next = start.advance (((g.vertices catalog).flatMap fun v => v.step.schema.visible).length +
      ng.hidden.keys.length) := by
  obtain ⟨⟨ns, a⟩, hmake, hng⟩ := Except.bind_eq_ok_iff.1 h
  cases hng
  obtain ⟨-, -, -, rfl, -⟩ := makeNodes_eq_ok_iff.1 hmake
  have hindex := Allotment.next_allot ⟨.empty, start⟩ (g.vertices catalog)
  have hempty : (OrderedMap.empty : InputMap).keys.length = 0 := rfl
  rw [hempty, Nat.add_zero, Nat.add_assoc] at hindex
  exact congrArg Register.mk hindex

/-- When the nodes of a graph can be made. -/
theorem createNodes_isOk_iff {catalog : Catalog} {start : Register} {g : Graph} :
    (∃ ng, createNodes catalog start g.nodes = .ok ng) ↔
      g.nodeIds.Nodup ∧ (∀ n ∈ g.nodes, ∃ step, catalog n.type = some step) ∧
        (allotment catalog start g).AgreesWith (g.vertices catalog) ∧
        ∀ v ∈ g.vertices catalog,
          v.slotNames.Subperm (v.step.schema.visible.map fun e => e.2.1) := by
  rw [← @exists_nodesFrom_iff (allotment catalog start g).hidden ⟨.empty, start⟩]
  simp only [createNodes, Except.bind_eq_ok_iff, Prod.exists, makeNodes_eq_ok_iff]
  constructor
  · rintro ⟨ng, ns, a, ⟨⟨-, hnodup⟩, hknown, hagrees, rfl, hns⟩, -⟩
    exact ⟨hnodup, hknown, hagrees, ns, hns⟩
  · rintro ⟨hnodup, hknown, hagrees, ns, hns⟩
    exact ⟨_, ns, _, ⟨⟨by simp, hnodup⟩, hknown, hagrees, rfl, hns⟩, rfl⟩

/-- The shared inputs have the types of all declarations exactly if these agree with each other. -/
theorem Allotment.agreesWith_allotment_iff {catalog : Catalog} {start : Register} {g : Graph} :
    (allotment catalog start g).AgreesWith (g.vertices catalog) ↔
      Consistent (hiddenDeclarations (g.vertices catalog)) := by
  rw [allotment, (Allotment.declares_allot start (g.vertices catalog)).consistent_iff]
  constructor
  · intro h d hd
    obtain ⟨v, hv, hd⟩ := mem_hiddenDeclarations.1 hd
    exact h v hv d hd
  · exact fun h v hv d hd => h d (mem_hiddenDeclarations.2 ⟨v, hv, hd⟩)

/-- If ids, types and slots are as they should be, the nodes of a graph cannot be made if and only
if its hidden inputs clash. -/
theorem createNodes_eq_error_iff {catalog : Catalog} {start : Register} {g : Graph}
    {e : CompileError} (hnodup : g.nodeIds.Nodup)
    (hknown : ∀ n ∈ g.nodes, ∃ step, catalog n.type = some step)
    (hslots : ∀ v ∈ g.vertices catalog,
      v.slotNames.Subperm (v.step.schema.visible.map fun d => d.2.1)) :
    createNodes catalog start g.nodes = .error e ↔
      Clashes [] (hiddenDeclarations (g.vertices catalog)) e := by
  have hfailed : ∀ {e}, createNodes catalog start g.nodes = .error e →
      Clashes [] (hiddenDeclarations (g.vertices catalog)) e := by
    intro e he
    rcases Except.bind_eq_error_iff.1 he with hmake | ⟨r, -, hr⟩
    · exact clashes_of_makeNodes (by simp) hnodup hknown hslots (Allotment.declares_nil start)
        (by simp [Consistent]) hmake
    · cases hr
  refine ⟨hfailed, fun hclash => ?_⟩
  cases hcreate : createNodes catalog start g.nodes with
  | error e' => rw [hclash.unique (hfailed hcreate)]
  | ok ng =>
      obtain ⟨-, -, hagrees, -⟩ := createNodes_isOk_iff.1 ⟨ng, hcreate⟩
      exact absurd (Allotment.agreesWith_allotment_iff.1 hagrees) hclash.not_consistent

end Plan

end StepGraph
