import StepGraph.Proofs.Node.Binding
import StepGraph.Proofs.Node.Slots
import StepGraph.Proofs.Outcome

/-!
# What the nodes of a graph are made into

A vertex becomes the node `v.node? hidden start`: its visible inputs have their registers from
`start` on, the hidden ones those of `hidden`, the declared slots are set apart and the inputs that
are left have their positional values. `nodesFrom hidden a vs` does so for a list of vertices, the
allotment going from one to the next.

`makeNodes` succeeds exactly if the ids are new and distinct, all types are known, the hidden inputs
agree in their types and all slots can be set apart; and then it returns those nodes.
-/

namespace StepGraph

open Plan

/-- The node a vertex becomes; none if its slots cannot be set apart. -/
def Vertex.node? (hidden : InputMap) (start : Register) (v : Vertex) : Option Node :=
  (takeInputs v.slotNames (freshInputs start v.step.schema.visible)).map fun r =>
    { Node.fresh v.id v.saved v.step start hidden with
      slots := r.1, inputs := assignDefaults r.2 v.saved.values }

namespace Plan

/-- The nodes that vertices become one after the other. -/
def nodesFrom (hidden : InputMap) : Allotment → List Vertex → Option (List Node)
  | _, [] => some []
  | a, v :: vs =>
    (v.node? hidden a.next).bind fun n => (nodesFrom hidden (a.after v.step) vs).map (n :: ·)

/-- The allotment after the vertices of a list. -/
def Allotment.allot (a : Allotment) (vs : List Vertex) : Allotment :=
  vs.foldl (fun a v => a.after v.step) a

/-- Every hidden input of the vertices has the type that the allotment has for its name. -/
def Allotment.AgreesWith (a : Allotment) (vs : List Vertex) : Prop :=
  ∀ v ∈ vs, ∀ e ∈ v.step.schema.hidden.entries, a.Agrees e.1 e.2

@[simp] theorem Allotment.allot_nil (a : Allotment) : a.allot [] = a := rfl

@[simp] theorem Allotment.allot_cons (a : Allotment) (v : Vertex) (vs : List Vertex) :
    a.allot (v :: vs) = (a.after v.step).allot vs := rfl

theorem Allotment.find?_allot {a : Allotment} {vs : List Vertex} {x : String} {i : Input}
    (h : a.hidden.find? x = some i) : (a.allot vs).hidden.find? x = some i := by
  induction vs generalizing a with
  | nil => exact h
  | cons v vs ih => exact ih (find?_after h)

theorem Allotment.exists_find?_shareAll {a : Allotment} {hs : List (String × InputSpec)}
    {e : String × InputSpec} (he : e ∈ hs) : ∃ i, (a.shareAll hs).hidden.find? e.1 = some i := by
  induction hs generalizing a with
  | nil => simp at he
  | cons f hs ih =>
      rw [shareAll_cons]
      rcases List.mem_cons.1 he with rfl | he
      · exact ⟨_, find?_shareAll find?_share_self⟩
      · exact ih he

/-- The hidden inputs of a step do not change any more once the step has been seen. -/
theorem Allotment.find?_allot_after {a : Allotment} {step : Step} {vs : List Vertex}
    {e : String × InputSpec} (he : e ∈ step.schema.hidden.entries) :
    ((a.after step).allot vs).hidden.find? e.1 = (a.after step).hidden.find? e.1 := by
  obtain ⟨i, hi⟩ : ∃ i, (a.after step).hidden.find? e.1 = some i := exists_find?_shareAll he
  rw [hi, find?_allot hi]

theorem Allotment.agrees_allot_after_iff {a : Allotment} {step : Step} {vs : List Vertex}
    {e : String × InputSpec} (he : e ∈ step.schema.hidden.entries) :
    ((a.after step).allot vs).Agrees e.1 e.2 ↔ (a.after step).Agrees e.1 e.2 := by
  rw [Agrees, Agrees, find?_allot_after he]

theorem argumentMap_congr {hidden hidden' : InputMap} {schema : InputSchema} (start : Register)
    (h : ∀ e ∈ schema.hidden.entries, hidden.find? e.1 = hidden'.find? e.1) :
    argumentMap start hidden schema = argumentMap start hidden' schema := by
  have hregisters : schema.hidden.entries.map (fun e => (e.1, hiddenRegister hidden e.1)) =
      schema.hidden.entries.map fun e => (e.1, hiddenRegister hidden' e.1) := by
    apply List.map_congr_left
    intro e he
    rw [hiddenRegister, hiddenRegister, h e he]
  rw [argumentMap, argumentMap, hregisters]

/-- A node is made and its slots are set apart just as its vertex says. -/
theorem separateSlots_fresh_eq_ok_iff {hidden hidden' : InputMap} {start : Register} {v : Vertex}
    {n : Node}
    (h : ∀ e ∈ v.step.schema.hidden.entries, hidden.find? e.1 = hidden'.find? e.1) :
    (∃ m, (Node.fresh v.id v.saved v.step start hidden).separateSlots v.slotNames = .ok m ∧
      m.withDefaults v.saved.values = n) ↔ v.node? hidden' start = some n := by
  simp only [separateSlots_eq_ok_iff, Vertex.node?, Option.map_eq_some_iff, Prod.exists]
  have hmap := argumentMap_congr start h
  constructor
  · rintro ⟨m, ⟨taken, rest, htake, rfl⟩, rfl⟩
    exact ⟨taken, rest, htake, by simp [Node.fresh, Node.withDefaults, hmap]⟩
  · rintro ⟨taken, rest, htake, rfl⟩
    exact ⟨_, ⟨taken, rest, htake, rfl⟩, by simp [Node.fresh, Node.withDefaults, hmap]⟩

theorem nodesFrom_cons_eq_some {hidden : InputMap} {a : Allotment} {v : Vertex} {vs : List Vertex}
    {ns : List Node} :
    nodesFrom hidden a (v :: vs) = some ns ↔
      ∃ n rest, v.node? hidden a.next = some n ∧
        nodesFrom hidden (a.after v.step) vs = some rest ∧ ns = n :: rest := by
  simp only [nodesFrom, Option.bind_eq_some_iff, Option.map_eq_some_iff]
  constructor
  · rintro ⟨n, hn, rest, hrest, rfl⟩
    exact ⟨n, rest, hn, hrest, rfl⟩
  · rintro ⟨n, rest, hn, hrest, rfl⟩
    exact ⟨n, hn, rest, hrest, rfl⟩

/-- Ids are new and distinct if the first one is and the others are, with the first one seen. -/
theorem new_and_nodup_cons_iff {first : NodeId} {ids seen : List NodeId} (h : first ∉ seen) :
    ((∀ id ∈ first :: ids, id ∉ seen) ∧ (first :: ids).Nodup) ↔
      (∀ id ∈ ids, id ∉ first :: seen) ∧ ids.Nodup := by
  simp only [List.nodup_cons, List.mem_cons, not_or]
  grind

/-- What it takes to make one node and then the others. -/
theorem makeNodes_cons_eq_ok_iff {catalog : Catalog} {start : Nat} {seen : List NodeId}
    {a a' : Allotment} {m : Graph.Node} {saved : List Graph.Node} {ns : List Node} :
    makeNodes catalog start seen a (m :: saved) = .ok (ns, a') ↔
      m.idAt start ∉ seen ∧ ∃ step, catalog m.type = some step ∧ ∃ n₁ a₁,
        Node.make (m.idAt start) m step a = .ok (n₁, a₁) ∧ ∃ n₂ rest,
          n₁.separateSlots (m.slots.map Graph.Slot.name) = .ok n₂ ∧
          makeNodes catalog (start + 1) (m.idAt start :: seen) a₁ saved = .ok (rest, a') ∧
          ns = n₂.withDefaults m.values :: rest := by
  rw [makeNodes]
  by_cases hseen : m.idAt start ∈ seen
  · simp only [hseen, if_true, not_true_eq_false, false_and, iff_false]
    intro h
    cases h
  simp only [hseen, if_false, not_false_eq_true, true_and]
  cases hstep : catalog m.type with
  | none =>
      refine iff_of_false (fun h => by cases h) ?_
      rintro ⟨step, h, -⟩
      cases h
  | some step =>
      simp only [Except.bind_eq_ok_iff, Prod.exists]
      constructor
      · rintro ⟨step', hpure, n₁, a₁, hmake, n₂, hslots, rest, a₂, hrest, hresult⟩
        cases hpure
        cases hresult
        exact ⟨step, rfl, n₁, a₁, hmake, n₂, rest, hslots, hrest, rfl⟩
      · rintro ⟨step', hstep', n₁, a₁, hmake, n₂, rest, hslots, hrest, rfl⟩
        cases hstep'
        exact ⟨step, rfl, n₁, a₁, hmake, n₂, hslots, rest, a', hrest, rfl⟩

/-- When the nodes of a list are made, and what they are. -/
theorem makeNodes_eq_ok_iff {catalog : Catalog} {start : Nat} {seen : List NodeId}
    {a a' : Allotment} {saved : List Graph.Node} {ns : List Node} :
    makeNodes catalog start seen a saved = .ok (ns, a') ↔
      ((∀ id ∈ Graph.idsFrom start saved, id ∉ seen) ∧ (Graph.idsFrom start saved).Nodup) ∧
        (∀ n ∈ saved, ∃ step, catalog n.type = some step) ∧
        a'.AgreesWith (Graph.verticesFrom catalog start saved) ∧
        a' = a.allot (Graph.verticesFrom catalog start saved) ∧
        nodesFrom a'.hidden a (Graph.verticesFrom catalog start saved) = some ns := by
  induction saved generalizing start seen a ns with
  | nil =>
      simp [makeNodes, Graph.verticesFrom, Allotment.AgreesWith, nodesFrom, eq_comm, and_comm]
  | cons m saved ih =>
      rw [makeNodes_cons_eq_ok_iff]
      cases hstep : catalog m.type with
      | none =>
          refine iff_of_false ?_ ?_
          · rintro ⟨-, step, h, -⟩
            cases h
          · rintro ⟨-, hknown, -⟩
            obtain ⟨step, h⟩ := hknown m (List.mem_cons_self ..)
            rw [hstep] at h
            cases h
      | some step =>
          let v : Vertex := ⟨start, m.idAt start, m, step⟩
          let vs := Graph.verticesFrom catalog (start + 1) saved
          have hvertices : Graph.verticesFrom catalog start (m :: saved) = v :: vs := by
            rw [Graph.verticesFrom, hstep]
          have hsame : ∀ e ∈ step.schema.hidden.entries,
              (a.after step).hidden.find? e.1 = ((a.after step).allot vs).hidden.find? e.1 :=
            fun e he => (Allotment.find?_allot_after he).symm
          rw [hvertices, Allotment.allot_cons, nodesFrom_cons_eq_some, Graph.idsFrom_cons]
          constructor
          · rintro ⟨hseen, step', hstep', n₁, a₁, hmake, n₂, rest, hslots, hrest, rfl⟩
            cases hstep'
            obtain ⟨hagrees, rfl, rfl⟩ := Node.make_eq_ok_iff.1 hmake
            obtain ⟨hnew, hknown, hothers, rfl, hnodes⟩ := ih.1 hrest
            refine ⟨(new_and_nodup_cons_iff hseen).2 hnew, ?_, ?_, rfl, _, rest, ?_, hnodes, rfl⟩
            · exact List.forall_mem_cons.2 ⟨⟨step, hstep⟩, hknown⟩
            · refine List.forall_mem_cons.2 ⟨fun e he => ?_, hothers⟩
              exact (Allotment.agrees_allot_after_iff he).2 (hagrees e he)
            · exact (separateSlots_fresh_eq_ok_iff (v := v) hsame).1 ⟨n₂, hslots, rfl⟩
          · rintro ⟨hnew, hknown, hagrees, rfl, n, rest, hnode, hnodes, rfl⟩
            have hseen : m.idAt start ∉ seen := hnew.1 _ (List.mem_cons_self ..)
            obtain ⟨hown, hothers⟩ := List.forall_mem_cons.1 hagrees
            obtain ⟨n₂, hslots, rfl⟩ := (separateSlots_fresh_eq_ok_iff (v := v) hsame).2 hnode
            have hmake : Node.make (m.idAt start) m step a = .ok
                (Node.fresh (m.idAt start) m step a.next (a.after step).hidden, a.after step) :=
              Node.make_eq_ok_iff.2
                ⟨fun e he => (Allotment.agrees_allot_after_iff he).1 (hown e he), rfl, rfl⟩
            exact ⟨hseen, step, rfl, _, _, hmake, n₂, rest, hslots,
              ih.2 ⟨(new_and_nodup_cons_iff hseen).1 hnew, (List.forall_mem_cons.1 hknown).2,
                hothers, rfl, hnodes⟩, rfl⟩

end Plan

end StepGraph
