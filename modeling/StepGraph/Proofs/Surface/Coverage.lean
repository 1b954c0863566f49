import StepGraph.Proofs.Selection.Surface

/-!
# The surface has every input once

The inputs of a compiled graph are the hidden inputs that its nodes declare, each name once, and
after them, node by node, the slots that no link enters and the value inputs. None is lost, because
each gets a name that no input before it has: its own one, or the one with the least suffix that is
free.
-/

namespace StepGraph

open Plan

/-- The node has the slots of the vertex in their order, and as value inputs the other inputs of
the step in the order of its schema. -/
structure Vertex.Lists (v : Vertex) (n : Node) : Prop where
  id : n.id = v.id
  slots : n.slots.map Input.name = v.slotNames
  inputs : (n.inputs.map fun i => (i.group, i.name, i.typeTag)).Sublist
    (v.step.schema.visible.map fun e => (e.1, e.2.1, e.2.2.typeTag))
  feeds : (n.feeds.map fun i => (i.group, i.name, i.typeTag)).Perm
    (v.step.schema.visible.map fun e => (e.1, e.2.1, e.2.2.typeTag))

theorem Vertex.Makes.lists {hidden : InputMap} {start : Register} {v : Vertex} {n : Node}
    (h : v.Makes hidden start n) : v.Lists n := by
  have hfresh : (freshInputs start v.step.schema.visible).map
      (fun i => (i.group, i.name, i.typeTag)) =
        v.step.schema.visible.map fun e => (e.1, e.2.1, e.2.2.typeTag) := by
    rw [← congrArg (List.map _) (map_declaration_freshInputs start _), List.map_map]
    rfl
  refine ⟨h.id, h.map_name_slots, ?_, ?_⟩
  · obtain ⟨rest, htake, hinputs⟩ := h.separated
    rw [hinputs, map_assignDefaults fun _ _ => rfl, ← hfresh]
    exact (sublist_of_takeInputs htake).map _
  · rw [← hfresh]
    exact h.perm_feeds fun _ _ => rfl

namespace Plan

/-- The surface shows the hidden inputs and the inputs that no link feeds. -/
structure Covers (catalog : Catalog) (g : Graph) (ng : NodeGraph) (inputs : InputMap) : Prop where
  /-- The hidden inputs have their own names, in the order of their first declarations. -/
  hidden : ng.hidden.entries.map (fun e => (e.1, Input.declaration e.2)) =
    (Vertex.hiddenInputs (g.vertices catalog)).map fun e => (e.1, .hidden, e)
  /-- No node of the graph is missing, and the nodes stand by their ranks. -/
  nodes : (g.vertices catalog).map Vertex.id = g.nodeIds ∧
    ∃ vs, vs.Perm (g.vertices catalog) ∧ vs.Pairwise Vertex.Before ∧
      List.Forall₂ Vertex.Lists vs ng.nodes
  first : ng.hidden.entries <+: inputs.entries
  values : inputs.values = ng.hidden.values ++ ng.nodes.flatMap (Node.openFeeds g.links)
  named : ∀ before e after, inputs.entries = ng.hidden.entries ++ before ++ e :: after →
    IsFirstFree e.2.name (Entries.keys (ng.hidden.entries ++ before)) e.1
  distinct : (inputs.values.map Input.register).Nodup

theorem NodeGraph.Compiles.covers {start : Register} {catalog : Catalog} {g : Graph}
    {options : ExportOptions} {ng : NodeGraph} {order : List Nat} {p : Plan}
    (hc : ng.Compiles g options order p) (hcreate : createNodes catalog start g.nodes = .ok ng) :
    Covers catalog g ng p.inputs := by
  have h := createNodes_eq_ok hcreate
  have hvalues := hc.values_inputs
  constructor
  case hidden => exact map_hidden_of_createNodes hcreate
  case nodes =>
    exact ⟨h.nodeIds, _, g.arranged_perm catalog, g.pairwise_before_arranged catalog,
      h.makes.imp fun _ _ ⟨_, hmakes⟩ => hmakes.lists⟩
  case first =>
    rw [hc.inputs]
    exact List.prefix_append ..
  case values => rw [hvalues, h.freeInputs_eq hc.fits]
  case named =>
    intro before e after heq
    rw [hc.inputs, List.append_assoc] at heq
    have hname := isFirstFree_of_exportNames (List.append_cancel_left heq)
    rwa [OrderedMap.keys, Entries.keys, ← List.map_append] at hname
  case distinct =>
    have hnodup := hc.nodup_registers h
    rwa [hc.registers_inputs h, ← hvalues] at hnodup

/-- Whatever graph is compiled, its surface has every hidden input and every input that no link
feeds, once and under the first free name. -/
theorem compiled_surface_covers (start : Register) (catalog : Catalog) (g : Graph)
    (options : ExportOptions) (p : Plan) (h : compileFrom start catalog g options = .ok p) :
    ∃ ng, createNodes catalog start g.nodes = .ok ng ∧ Covers catalog g ng p.inputs := by
  obtain ⟨ng, order, hcreate, -, hcompiles⟩ := compiles_of_compileFrom_eq_ok h
  exact ⟨ng, hcreate, hcompiles.covers hcreate⟩

theorem relay_surface_covers :
    ∃ p ng, compileFrom .first relayCatalog relayGraph .default = .ok p ∧
      createNodes relayCatalog .first relayGraph.nodes = .ok ng ∧
      Covers relayCatalog relayGraph ng p.inputs := by
  obtain ⟨ng, h⟩ := compiled_surface_covers .first relayCatalog relayGraph .default _ rfl
  exact ⟨_, ng, rfl, h⟩

end Plan

end StepGraph
