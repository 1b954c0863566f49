import Mathlib.Data.List.Sort
import StepGraph.Graph.Basic
import StepGraph.Step.Basic

/-!
# Vertices of a graph

A vertex is a node of a graph together with what decides its meaning: its position in the list of
nodes, the id it goes by and the step of its type. `vertices catalog g` lists the vertices of a
graph in list order, without the nodes of unknown types.

The vertices are ranked by their order hints, and those of the same hint by their positions.
`arranged catalog g` lists them by their ranks.
-/

namespace StepGraph

/-- A node of a graph, where it stands in the list, the id it goes by and its step. -/
structure Vertex where
  position : Nat
  id : NodeId
  saved : Graph.Node
  step : Step

/-- The inputs of a schema that are not hidden: the required ones, then the optional ones. -/
def InputSchema.visible (s : InputSchema) : List (InputGroup × String × InputSpec) :=
  s.required.entries.map (fun e => (.required, e)) ++
    s.optional.entries.map fun e => (.optional, e)

/-- The names of all inputs of a schema. -/
def InputSchema.names (s : InputSchema) : List String := s.entries.map fun e => e.2.1

theorem InputSchema.entries_eq (s : InputSchema) :
    s.entries = s.visible ++ s.hidden.entries.map fun e => (.hidden, e) := rfl

theorem InputSchema.group_ne_hidden_of_mem_visible {s : InputSchema}
    {e : InputGroup × String × InputSpec} (h : e ∈ s.visible) : e.1 ≠ .hidden := by
  simp only [visible, List.mem_append, List.mem_map] at h
  rcases h with ⟨-, -, rfl⟩ | ⟨-, -, rfl⟩ <;> simp

namespace Vertex

/-- The order hint; none counts as zero. -/
def hint (v : Vertex) : Int64 := v.saved.order.getD 0

/-- The names of the inputs that are set apart as slots. -/
def slotNames (v : Vertex) : List String := v.saved.slots.map Graph.Slot.name

/-- The input that slot number `j` is: the next one of its name after those of the slots before. -/
def slot? (v : Vertex) (j : Nat) : Option (InputGroup × String × InputSpec) :=
  v.slotNames[j]?.bind fun name =>
    (v.step.schema.visible.filter fun e => e.2.1 = name)[(v.slotNames.take j).count name]?

/-- The vertex has a lower order hint, or the same one and an earlier position. -/
def Before (v w : Vertex) : Prop := v.hint < w.hint ∨ v.hint = w.hint ∧ v.position < w.position

/-- The vertices by their order hints; those of the same hint stay as they are. -/
def arrange : List Vertex → List Vertex := List.insertionSort fun v w => v.hint ≤ w.hint

theorem arrange_perm (vs : List Vertex) : (arrange vs).Perm vs :=
  List.perm_insertionSort (fun v w : Vertex => v.hint ≤ w.hint) vs

theorem pairwise_before_orderedInsert {v : Vertex} {vs : List Vertex}
    (hvs : vs.Pairwise Before) (hv : ∀ w ∈ vs, v.position < w.position) :
    (vs.orderedInsert (fun v w => v.hint ≤ w.hint) v).Pairwise Before := by
  induction vs with
  | nil => simp
  | cons w vs ih =>
      obtain ⟨hw, hvs⟩ := List.pairwise_cons.1 hvs
      rw [List.orderedInsert]
      split
      · next hle =>
        have hvw : ∀ x ∈ w :: vs, v.Before x := by
          intro x hx
          have hhint : v.hint ≤ x.hint := by
            rcases List.mem_cons.1 hx with rfl | hx
            · exact hle
            · rcases hw x hx with hlt | ⟨heq, -⟩
              · exact Int64.le_trans hle (Int64.le_of_lt hlt)
              · exact heq ▸ hle
          rcases Int64.lt_or_eq_of_le hhint with hlt | heq
          · exact Or.inl hlt
          · exact Or.inr ⟨heq, hv x hx⟩
        exact List.pairwise_cons.2 ⟨hvw, List.pairwise_cons.2 ⟨hw, hvs⟩⟩
      · next hgt =>
        have hlt : w.Before v := Or.inl (Int64.not_le.1 hgt)
        refine List.pairwise_cons.2 ⟨?_, ih hvs fun x hx => hv x (List.mem_cons_of_mem w hx)⟩
        intro x hx
        rcases List.mem_orderedInsert _ |>.1 hx with rfl | hx
        · exact hlt
        · exact hw x hx

/-- Vertices in list order are arranged by their ranks. -/
theorem pairwise_before_arrange {vs : List Vertex}
    (h : vs.Pairwise fun v w => v.position < w.position) : (arrange vs).Pairwise Before := by
  induction vs with
  | nil => exact List.Pairwise.nil
  | cons v vs ih =>
      obtain ⟨hv, hvs⟩ := List.pairwise_cons.1 h
      refine pairwise_before_orderedInsert (ih hvs) ?_
      intro w hw
      exact hv w ((arrange_perm vs).mem_iff.1 hw)

end Vertex

namespace Graph

variable {catalog : Catalog}

/-- The vertices of a list of nodes, the first of which is at position `start`. -/
def verticesFrom (catalog : Catalog) : Nat → List Node → List Vertex
  | _, [] => []
  | start, n :: ns =>
    match catalog n.type with
    | some step => ⟨start, n.idAt start, n, step⟩ :: verticesFrom catalog (start + 1) ns
    | none => verticesFrom catalog (start + 1) ns

/-- The vertices of a graph in list order. -/
def vertices (catalog : Catalog) (g : Graph) : List Vertex := verticesFrom catalog 0 g.nodes

/-- The vertices of a graph by their ranks. -/
def arranged (catalog : Catalog) (g : Graph) : List Vertex := Vertex.arrange (g.vertices catalog)

theorem pairwise_position_verticesFrom (start : Nat) (ns : List Node) :
    (∀ v ∈ verticesFrom catalog start ns, start ≤ v.position) ∧
      (verticesFrom catalog start ns).Pairwise fun v w => v.position < w.position := by
  induction ns generalizing start with
  | nil => simp [verticesFrom]
  | cons n ns ih =>
      obtain ⟨hstart, hpairwise⟩ := ih (start + 1)
      rw [verticesFrom]
      split
      · refine ⟨?_, List.pairwise_cons.2 ⟨?_, hpairwise⟩⟩
        · intro v hv
          rcases List.mem_cons.1 hv with rfl | hv
          · exact Nat.le_refl start
          · exact Nat.le_of_succ_le (hstart v hv)
        · intro v hv
          exact hstart v hv
      · exact ⟨fun v hv => Nat.le_of_succ_le (hstart v hv), hpairwise⟩

theorem mem_verticesFrom {start : Nat} {ns : List Node} {v : Vertex}
    (h : v ∈ verticesFrom catalog start ns) :
    v.saved ∈ ns ∧ catalog v.saved.type = some v.step := by
  induction ns generalizing start with
  | nil => simp [verticesFrom] at h
  | cons n ns ih =>
      rw [verticesFrom] at h
      split at h
      · next step hstep =>
        rcases List.mem_cons.1 h with rfl | h
        · exact ⟨List.mem_cons_self .., hstep⟩
        · exact ⟨List.mem_cons_of_mem n (ih h).1, (ih h).2⟩
      · exact ⟨List.mem_cons_of_mem n (ih h).1, (ih h).2⟩

theorem arranged_perm (catalog : Catalog) (g : Graph) :
    (g.arranged catalog).Perm (g.vertices catalog) :=
  Vertex.arrange_perm _

theorem pairwise_before_arranged (catalog : Catalog) (g : Graph) :
    (g.arranged catalog).Pairwise Vertex.Before :=
  Vertex.pairwise_before_arrange (pairwise_position_verticesFrom 0 g.nodes).2

end Graph

end StepGraph
