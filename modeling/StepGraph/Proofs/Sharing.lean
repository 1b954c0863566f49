import StepGraph.Proofs.Redeclaration
import StepGraph.Proofs.WellFormed

/-!
# Hidden inputs are shared by name

The nodes of a graph have one hidden input for each name that a step declares as hidden, and every
node whose step declares the name reads its argument from the register of this one input. No slot
and no value input has that register, and no positional value goes to a hidden input: it is as the
first step declares it. `NodeGraph.SharesHidden` says all this of the nodes that are made.

Apart from ids, types and slots, making nodes can fail only because two steps declare one name with
different types.
-/

namespace StepGraph.Plan

variable {catalog : Catalog} {start : Register} {g : Graph} {ng : NodeGraph}

/-- The nodes have the hidden inputs that the steps of the graph declare, one for each name. -/
structure NodeGraph.SharesHidden (catalog : Catalog) (g : Graph) (ng : NodeGraph) : Prop where
  /-- No node of the graph is missing, and each has its step. -/
  saved : (g.vertices catalog).map Vertex.saved = g.nodes
  nodes : (ng.nodes.map fun n => (n.id, n.step)).Perm
    ((g.vertices catalog).map fun v => (v.id, v.step))
  /-- Names come in the order of their first declarations. -/
  keys : ng.hidden.keys = g.hiddenNames catalog
  /-- The inputs are declared as hidden, and as the first declarations say. -/
  declared : ∀ x i, ng.hidden.find? x = some i → ∃ spec r,
    Entries.find? x (hiddenDeclarations (g.vertices catalog)) = some spec ∧
      i = Input.make x .hidden spec r
  reads : ∀ n ∈ ng.nodes, ∀ x ∈ n.step.schema.hidden.keys,
    ∃ i, ng.hidden.find? x = some i ∧ n.inputMap.find? x = some i.register
  /-- Slots and value inputs are no hidden inputs and have other registers. -/
  apart : ∀ i ∈ ng.hidden.values, ∀ n ∈ ng.nodes, ∀ j ∈ n.slots ++ n.inputs,
    j.group ≠ .hidden ∧ i.registers.Disjoint j.registers
  distinct : ∀ x y i j, ng.hidden.find? x = some i → ng.hidden.find? y = some j →
    i.register = j.register → x = y

theorem NodeGraph.Represents.nodes_perm (h : ng.Represents catalog g) :
    (ng.nodes.map fun n => (n.id, n.step)).Perm
      ((g.vertices catalog).map fun v => (v.id, v.step)) := by
  have harranged : ng.nodes.map (fun n => (n.id, n.step)) =
      (g.arranged catalog).map fun v => (v.id, v.step) := by
    refine (map_eq_map_iff_forall₂.2 (h.makes.imp ?_)).symm
    rintro v n ⟨_, hmakes⟩
    rw [hmakes.id, hmakes.step]
  rw [harranged]
  exact (g.arranged_perm catalog).map _

theorem NodeGraph.Represents.reads_hidden (h : ng.Represents catalog g) {n : Node}
    (hn : n ∈ ng.nodes) {x : String} (hx : x ∈ n.step.schema.hidden.keys) :
    ∃ i, ng.hidden.find? x = some i ∧ n.inputMap.find? x = some i.register := by
  obtain ⟨v, hv, start, hmakes⟩ := h.exists_makes hn
  rw [hmakes.step] at hx
  obtain ⟨spec, hspec⟩ := OrderedMap.mem_keys_iff.1 hx
  obtain ⟨i, hi, -⟩ := h.agrees v hv (x, spec) (OrderedMap.find?_eq_some_iff.1 hspec)
  exact ⟨i, hi, by rw [hmakes.find?_inputMap_of_mem_hidden hx, hiddenRegister_of_find? hi]⟩

theorem NodeGraph.sharesHidden_of_createNodes
    (hcreate : createNodes catalog start g.nodes = .ok ng) : ng.SharesHidden catalog g := by
  have h := createNodes_eq_ok hcreate
  obtain ⟨-, hknown, -⟩ := createNodes_isOk_iff.1 ⟨ng, hcreate⟩
  have hregisters := h.inputs.1
  constructor
  case saved => exact (Graph.map_saved_verticesFrom hknown).1
  case nodes => exact h.nodes_perm
  case keys => exact h.keys_hidden
  case declared =>
    intro x i hi
    obtain ⟨hspec, hgroup, hname⟩ := declared_of_createNodes hcreate hi
    refine ⟨i.spec, i.register, hspec, ?_⟩
    rw [Input.make, ← hname, ← hgroup, ← hregisters i (mem_ownedInputs_of_find? hi)]
  case reads => exact fun n hn x hx => h.reads_hidden hn hx
  case apart =>
    intro i hi n hn j hj
    refine ⟨h.group_ne_hidden_of_mem_feeds hn hj, ?_⟩
    rw [hregisters i (mem_ownedInputs_of_hidden hi), hregisters j (mem_ownedInputs_of_feed hn hj)]
    simpa using h.register_ne hn hj hi
  case distinct => exact fun x y i j => h.name_eq_of_register_eq

/-- If ids, types and slots are as they should be, making nodes fails exactly if two steps declare
one name with different types. -/
theorem createNodes_isError_iff (hnodup : g.nodeIds.Nodup)
    (hknown : ∀ n ∈ g.nodes, ∃ step, catalog n.type = some step)
    (hslots : ∀ v ∈ g.vertices catalog,
      v.slotNames.Subperm (v.step.schema.visible.map fun d => d.2.1)) :
    (∃ e, createNodes catalog start g.nodes = .error e) ↔
      ∃ v ∈ g.vertices catalog, ∃ w ∈ g.vertices catalog, ∃ x spec spec',
        v.step.schema.hidden.find? x = some spec ∧ w.step.schema.hidden.find? x = some spec' ∧
          spec.typeTag ≠ spec'.typeTag := by
  have hok : (∃ ng, createNodes catalog start g.nodes = .ok ng) ↔
      Consistent (hiddenDeclarations (g.vertices catalog)) := by
    rw [createNodes_isOk_iff, Allotment.agreesWith_allotment_iff]
    exact ⟨fun h => h.2.2.1, fun h => ⟨hnodup, hknown, h, hslots⟩⟩
  have herror : (∃ e, createNodes catalog start g.nodes = .error e) ↔
      ¬ ∃ ng, createNodes catalog start g.nodes = .ok ng := by
    cases createNodes catalog start g.nodes <;> simp
  rw [herror, hok, consistent_hiddenDeclarations_iff]
  push Not
  constructor
  · rintro ⟨v, hv, w, hw, ⟨x, spec⟩, hd, ⟨y, spec'⟩, hf, rfl, hne⟩
    exact ⟨v, hv, w, hw, x, spec, spec', OrderedMap.find?_eq_some_iff.2 hd,
      OrderedMap.find?_eq_some_iff.2 hf, hne⟩
  · rintro ⟨v, hv, w, hw, x, spec, spec', hd, hf, hne⟩
    exact ⟨v, hv, w, hw, (x, spec), OrderedMap.find?_eq_some_iff.1 hd, (x, spec'),
      OrderedMap.find?_eq_some_iff.1 hf, rfl, hne⟩

/-- Nodes that are made share their hidden inputs by name. Where ids, types and slots are as they
should be, they cannot be made exactly if two nodes declare one hidden name with different types,
and then the failure names the first declaration that differs and the one that it differs from. -/
theorem hidden_inputs_shared_by_name (catalog : Catalog) (start : Register) (g : Graph) :
    (∀ ng, createNodes catalog start g.nodes = .ok ng → ng.SharesHidden catalog g) ∧
      (g.nodeIds.Nodup → (∀ n ∈ g.nodes, ∃ step, catalog n.type = some step) →
        (∀ v ∈ g.vertices catalog,
          v.slotNames.Subperm (v.step.schema.visible.map fun d => d.2.1)) →
        ((∃ e, createNodes catalog start g.nodes = .error e) ↔
          ∃ v ∈ g.vertices catalog, ∃ w ∈ g.vertices catalog, ∃ x spec spec',
            v.step.schema.hidden.find? x = some spec ∧
              w.step.schema.hidden.find? x = some spec' ∧ spec.typeTag ≠ spec'.typeTag) ∧
        ∀ e, createNodes catalog start g.nodes = .error e ↔
          Clashes [] (hiddenDeclarations (g.vertices catalog)) e) := by
  refine ⟨fun ng => NodeGraph.sharesHidden_of_createNodes, fun hnodup hknown hslots => ⟨?_, ?_⟩⟩
  · exact createNodes_isError_iff hnodup hknown hslots
  · exact fun e => createNodes_eq_error_iff hnodup hknown hslots

/-- Knows a step as well that declares the context of relays with another type. -/
def mixedCatalog : Catalog := fun type =>
  if type = "relay" then some relayStep
  else some { relayStep with
    schema := { relayStep.schema with hidden := .ofList [("context", .ofType "INT")] } }

/-- Two relays with a node between them whose step has the other type. -/
def mixedGraph : Graph where
  nodes := [
    ⟨"relay", some ⟨"first"⟩, none, [], [], .empty⟩,
    ⟨"other", some ⟨"second"⟩, none, [⟨"value", .empty⟩], [], .empty⟩,
    ⟨"relay", some ⟨"third"⟩, none, [], [], .empty⟩]
  links := []
  extra := .empty

/-- The three relays share their context; with another type among them there is a failure. -/
theorem relays_share_hidden :
    (∃ ng, createNodes relayCatalog .first relayGraph.nodes = .ok ng ∧
      ng.SharesHidden relayCatalog relayGraph) ∧
      createNodes mixedCatalog .first mixedGraph.nodes =
        .error (.hiddenInputTypeMismatch "context" "ANY" "INT") := by
  constructor
  · obtain ⟨ng, hng⟩ : ∃ ng, createNodes relayCatalog .first relayGraph.nodes = .ok ng := ⟨_, rfl⟩
    exact ⟨ng, hng, (hidden_inputs_shared_by_name relayCatalog .first relayGraph).1 ng hng⟩
  · have hnodup : mixedGraph.nodeIds.Nodup := by decide
    have hknown : ∀ n ∈ mixedGraph.nodes, ∃ step, mixedCatalog n.type = some step := by
      simp [mixedGraph, mixedCatalog]
    have hslots : ∀ v ∈ mixedGraph.vertices mixedCatalog,
        v.slotNames.Subperm (v.step.schema.visible.map fun d => d.2.1) := by
      decide
    refine (((hidden_inputs_shared_by_name mixedCatalog .first mixedGraph).2 hnodup hknown
      hslots).2 _).2 ?_
    exact ⟨[("context", .ofType "ANY")], "context", .ofType "INT", [("context", .ofType "ANY")],
      .ofType "ANY", rfl, by simp [Consistent], rfl, by decide, rfl⟩

end StepGraph.Plan
