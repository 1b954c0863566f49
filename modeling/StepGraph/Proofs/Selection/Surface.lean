import StepGraph.Proofs.Comparison.Options
import StepGraph.Proofs.Selection.Nodes

/-!
# The surface of a part of a graph

A part of a graph that can be compiled can be compiled as well, and what it exports can be told from
the whole: the hidden inputs that its nodes declare, each name once with its first declaration, and
of the nodes of the whole graph that are kept the value inputs, with the defaults they have there,
and the slots that no link from a kept node enters. Where a kept node reads from one that is left
out, the slot is free and so it is exported.

If all nodes are kept, the same plan is compiled as for the whole graph.
-/

namespace StepGraph

open Plan

namespace Plan

/-- A link of the list enters slot number `k` of the node. -/
def Enters (links : List Graph.Link) (id : NodeId) (k : Nat) : Prop :=
  ∃ l ∈ links, l.toNode = id ∧ l.toSlot.toNat = k

instance (links : List Graph.Link) (id : NodeId) (k : Nat) : Decidable (Enters links id k) :=
  List.decidableBEx _ _

/-- The slots of a node that no link enters, and its value inputs. -/
def Node.openFeeds (links : List Graph.Link) (n : Node) : List Input :=
  (n.slots.zipIdx.filter fun s => ¬ Enters links n.id s.2).map Prod.fst ++ n.inputs

/-- What a surface declares: the hidden inputs under their names and the others under the first free
ones. -/
def declaredSurface (hidden : List (String × InputSpec))
    (visible : List (InputGroup × String × InputSpec)) :
    List (String × InputGroup × String × InputSpec) :=
  hidden.map (fun e => (e.1, .hidden, e)) ++
    (exportNames (hidden.map Prod.fst) (visible.map fun d => d.2.1)).zip visible

/-! ## The inputs that no link feeds -/

namespace NodeGraph

variable {catalog : Catalog} {g : Graph} {ng : NodeGraph}

/-- A link leads to the register of an input if it enters the slot that the input is. -/
theorem Represents.mem_linked_iff_enters (h : ng.Represents catalog g)
    (hfits : ∀ l ∈ g.links, Fits ng.nodes l) {n : Node} (hn : n ∈ ng.nodes) {k : Nat} {i : Input}
    (hi : n.feeds[k]? = some i) :
    i.register ∈ (ng.linkWires g).map Wire.register ↔ Enters g.links n.id k := by
  rw [linkWires, List.map_map, List.mem_map]
  refine exists_congr fun l => and_congr_right fun hl => ?_
  obtain ⟨t, ht, j, htid, hslot, hwire⟩ := h.exists_slot_of_fits (hfits l hl)
  have hfeed := getElem?_feeds_of_slot hslot
  rw [Function.comp_apply, hwire, ← htid]
  constructor
  · intro hregister
    obtain ⟨rfl, hk⟩ := h.place_eq_of_register_eq ht hn hfeed hi hregister
    exact ⟨rfl, hk⟩
  · rintro ⟨hid, rfl⟩
    obtain rfl := h.eq_of_id_eq ht hn hid
    rw [Option.some.inj (hfeed.symm.trans hi)]

/-- No link leads to a value input. -/
theorem Represents.not_enters_inputs (h : ng.Represents catalog g)
    (hfits : ∀ l ∈ g.links, Fits ng.nodes l) {n : Node} (hn : n ∈ ng.nodes) {k : Nat}
    (hk : n.slots.length ≤ k) : ¬ Enters g.links n.id k := by
  rintro ⟨l, hl, hid, rfl⟩
  obtain ⟨t, ht, j, htid, hslot, -⟩ := h.exists_slot_of_fits (hfits l hl)
  obtain rfl := h.eq_of_id_eq ht hn (htid.trans hid)
  exact absurd (List.getElem?_eq_some_iff.1 hslot).1 (Nat.not_lt.2 hk)

theorem Represents.id_mem_nodeIds (h : ng.Represents catalog g) {n : Node} (hn : n ∈ ng.nodes) :
    n.id ∈ g.nodeIds :=
  h.map_id_perm.mem_iff.1 (List.mem_map_of_mem hn)

theorem Represents.ends_mem_nodeIds (h : ng.Represents catalog g) {l : Graph.Link}
    (hfits : Fits ng.nodes l) : l.fromNode ∈ g.nodeIds ∧ l.toNode ∈ g.nodeIds := by
  obtain ⟨s, hs, t, ht, -, -, hsid, htid, -⟩ := hfits
  exact ⟨hsid ▸ h.id_mem_nodeIds hs, htid ▸ h.id_mem_nodeIds ht⟩

/-- The inputs that no link feeds, node by node. -/
theorem Represents.freeInputs_eq (h : ng.Represents catalog g)
    (hfits : ∀ l ∈ g.links, Fits ng.nodes l) :
    ng.freeInputs g = ng.nodes.flatMap (Node.openFeeds g.links) := by
  rw [freeInputs, openInputs, List.filter_flatMap]
  refine List.flatMap_congr fun n hn => ?_
  rw [Node.feeds, List.filter_append, Node.openFeeds]
  congr 1
  · have hslots : n.slots = n.slots.zipIdx.map Prod.fst := (List.zipIdx_map_fst 0 n.slots).symm
    conv_lhs => rw [hslots]
    rw [List.filter_map]
    refine congrArg (List.map Prod.fst) (List.filter_congr fun s hs => ?_)
    have hfeed := getElem?_feeds_of_slot (List.mem_zipIdx_iff_getElem?.1 hs)
    simp only [Function.comp_apply, h.mem_linked_iff_enters hfits hn hfeed]
  · rw [List.filter_eq_self]
    intro i hi
    obtain ⟨k, hk⟩ := List.mem_iff_getElem?.1 hi
    have hfeed : n.feeds[n.slots.length + k]? = some i := by
      rw [Node.feeds, List.getElem?_append_right (Nat.le_add_right ..), Nat.add_sub_cancel_left, hk]
    rw [decide_eq_true_iff, h.mem_linked_iff_enters hfits hn hfeed]
    exact h.not_enters_inputs hfits hn (Nat.le_add_right ..)

end NodeGraph

/-! ## Surfaces -/

section

variable {start : Register} {catalog : Catalog} {g : Graph} {options : ExportOptions}
  {ng : NodeGraph} {order : List Nat} {p : Plan}

/-- What the surface of a plan declares. -/
theorem map_declaration_inputs (hcreate : createNodes catalog start g.nodes = .ok ng)
    (hc : ng.Compiles g options order p) :
    p.inputs.entries.map (fun e => (e.1, Input.declaration e.2)) =
      declaredSurface (Vertex.hiddenInputs (g.vertices catalog))
        ((ng.nodes.flatMap (Node.openFeeds g.links)).map Input.declaration) := by
  have hhidden := map_hidden_of_createNodes hcreate
  have hkeys : ng.hidden.keys = (Vertex.hiddenInputs (g.vertices catalog)).map Prod.fst := by
    have hmap := congrArg (List.map Prod.fst) hhidden
    rwa [List.map_map, List.map_map] at hmap
  rw [hc.inputs, List.map_append, hhidden, declaredSurface, hkeys, List.map_map,
    ← (createNodes_eq_ok hcreate).freeInputs_eq hc.fits, List.zip_map_right]
  rfl

end

/-! ## The nodes that are kept -/

/-- The nodes have the same id and the same inputs declared, as slots and as value inputs. -/
structure Node.DeclaredAs (n n' : Node) : Prop where
  id : n.id = n'.id
  slots : n.slots.map Input.declaration = n'.slots.map Input.declaration
  inputs : n.inputs.map Input.declaration = n'.inputs.map Input.declaration

theorem Node.DeclaredAs.map_openFeeds {n n' : Node} (h : n.DeclaredAs n')
    {links links' : List Graph.Link}
    (hlinks : ∀ k, Enters links n.id k ↔ Enters links' n'.id k) :
    (n.openFeeds links).map Input.declaration = (n'.openFeeds links').map Input.declaration := by
  have hslots : ∀ (closed : Nat → Bool) (is : List Input),
      ((is.zipIdx.filter fun s => !closed s.2).map Prod.fst).map Input.declaration =
        ((is.map Input.declaration).zipIdx.filter fun s => !closed s.2).map Prod.fst := by
    intro closed is
    rw [List.zipIdx_map, List.filter_map, List.map_map, List.map_map]
    rfl
  simp only [openFeeds, List.map_append, decide_not, h.inputs, hlinks]
  rw [hslots (fun k => decide (Enters links' n'.id k)) n.slots,
    hslots (fun k => decide (Enters links' n'.id k)) n'.slots, h.slots]

end Plan

theorem Vertex.Makes.declaredAs {hidden hidden' : InputMap} {start start' : Register}
    {v v' : Vertex} {n n' : Node} (h : v.Makes hidden start n) (h' : v'.Makes hidden' start' n')
    (hsame : v.Same v') : n.DeclaredAs n' := by
  obtain ⟨hfeeds, hlength⟩ := h.feeds_mirror h' hsame
  have hmap := map_eq_map_iff_forall₂.2 (hfeeds.imp fun _ _ hi => hi.declaration)
  rw [Node.feeds, Node.feeds, List.map_append, List.map_append] at hmap
  obtain ⟨hslots, hinputs⟩ := List.append_inj hmap (by simpa using hlength)
  exact ⟨by rw [h.id, h'.id, hsame.id], hslots, hinputs⟩

theorem forall₂_comp {α β γ : Type*} {r : α → β → Prop} {s : β → γ → Prop} {as : List α}
    {bs : List β} {cs : List γ} (h : List.Forall₂ r as bs) (h' : List.Forall₂ s bs cs) :
    List.Forall₂ (Relation.Comp r s) as cs := by
  induction h generalizing cs with
  | nil =>
      cases h'
      exact List.Forall₂.nil
  | cons hab _ ih =>
      cases h' with
      | cons hbc hrest => exact List.Forall₂.cons ⟨_, hab, hbc⟩ (ih hrest)

namespace Graph

variable {start start' : Register} {catalog : Catalog} {g : Graph} {ids : List NodeId}
  {ng ng' : NodeGraph}

theorem forall₂_verticesFrom_writtenFrom (start : Nat) (ns : List Node) :
    List.Forall₂ (fun v w : Vertex => v.id = w.id ∧ v.step = w.step)
      (verticesFrom catalog start (writtenFrom start ns)) (verticesFrom catalog start ns) := by
  induction ns generalizing start with
  | nil => exact List.Forall₂.nil
  | cons n ns ih =>
      rw [writtenFrom, verticesFrom, verticesFrom]
      cases catalog n.type with
      | none => exact ih (start + 1)
      | some step => exact List.Forall₂.cons ⟨rfl, rfl⟩ (ih (start + 1))

/-- The hidden inputs of a part are those that the kept vertices declare. -/
theorem hiddenInputs_select (catalog : Catalog) (g : Graph) (ids : List NodeId) :
    Vertex.hiddenInputs ((g.select ids).vertices catalog) =
      Vertex.hiddenInputs ((g.vertices catalog).filter fun v => v.id ∈ ids) := by
  have hwritten : List.Forall₂ (fun v w : Vertex => v.id = w.id ∧ v.step = w.step)
      ((g.written.vertices catalog).filter fun v => v.id ∈ ids)
      ((g.vertices catalog).filter fun v => v.id ∈ ids) := by
    refine List.rel_filter ?_ (forall₂_verticesFrom_writtenFrom 0 g.nodes)
    rintro v w ⟨hid, -⟩
    simp only [hid]
  have hsteps := forall₂_comp (forall₂_same_vertices_select catalog g ids).flip hwritten
  rw [Vertex.hiddenInputs, Vertex.hiddenInputs]
  refine congrArg Entries.firsts (List.forall₂_eq_eq_eq ▸ List.rel_flatMap hsteps ?_)
  rintro v w ⟨v', hsame, -, hstep⟩
  simp only [List.forall₂_eq_eq_eq, ← hsame.step, hstep]

theorem forall₂_declaredAs_select (hcreate : createNodes catalog start g.nodes = .ok ng)
    (hcreate' : createNodes catalog start' (g.select ids).nodes = .ok ng') :
    List.Forall₂ Plan.Node.DeclaredAs (ng.nodes.filter fun n => n.id ∈ ids) ng'.nodes := by
  have hwritten : createNodes catalog start g.written.nodes = .ok ng := by
    rw [createNodes_written, hcreate]
  have hkept : List.Forall₂ (fun v n => ∃ start, v.Makes ng.hidden start n)
      ((g.written.arranged catalog).filter fun v => v.id ∈ ids)
      (ng.nodes.filter fun n => n.id ∈ ids) := by
    refine List.rel_filter ?_ (createNodes_eq_ok hwritten).makes
    rintro v n ⟨_, hmakes⟩
    simp only [hmakes.id]
  have hmade := (createNodes_eq_ok hcreate').makes
  refine (forall₂_comp (forall₂_comp hkept.flip (forall₂_same_arranged_select catalog g ids))
    hmade).imp ?_
  rintro n n' ⟨v', ⟨v, ⟨_, hmakes⟩, hsame⟩, _, hmakes'⟩
  exact hmakes.declaredAs hmakes' hsame

/-- What enters a kept node in the part comes from a kept node. -/
theorem enters_select_iff (h : ng.Represents catalog g) (hfits : ∀ l ∈ g.links, Fits ng.nodes l)
    {id : NodeId} (hid : id ∈ ids) (hnode : id ∈ g.nodeIds) (k : Nat) :
    Enters (g.links.filter fun l => l.fromNode ∈ ids) id k ↔ Enters (g.select ids).links id k := by
  have hlink : ∀ l : Link, l.toNode = id → (l ∈ g.links.filter (fun l => l.fromNode ∈ ids) ↔
      l ∈ (g.select ids).links) := by
    rintro l rfl
    rw [mem_links_select, List.mem_filter, decide_eq_true_iff]
    constructor
    · rintro ⟨hl, hfrom⟩
      exact ⟨hl, ⟨hfrom, (h.ends_mem_nodeIds (hfits l hl)).1⟩, hid, hnode⟩
    · rintro ⟨hl, ⟨hfrom, -⟩, -⟩
      exact ⟨hl, hfrom⟩
  constructor
  · rintro ⟨l, hl, hto, hk⟩
    exact ⟨l, (hlink l hto).1 hl, hto, hk⟩
  · rintro ⟨l, hl, hto, hk⟩
    exact ⟨l, (hlink l hto).2 hl, hto, hk⟩

/-- The inputs that a part leaves open, as those of the nodes of the whole graph. -/
theorem map_openFeeds_select (hcreate : createNodes catalog start g.nodes = .ok ng)
    (hfits : ∀ l ∈ g.links, Fits ng.nodes l)
    (hcreate' : createNodes catalog start' (g.select ids).nodes = .ok ng') :
    (ng'.nodes.flatMap (Plan.Node.openFeeds (g.select ids).links)).map Input.declaration =
      ((ng.nodes.filter fun n => n.id ∈ ids).flatMap
        (Plan.Node.openFeeds (g.links.filter fun l => l.fromNode ∈ ids))).map
          Input.declaration := by
  have h := createNodes_eq_ok hcreate
  have hkept := (List.forall₂_and_left _ _).2
    ⟨fun n hn => hn, forall₂_declaredAs_select hcreate hcreate'⟩
  rw [List.map_flatMap, List.map_flatMap, eq_comm, ← List.forall₂_eq_eq_eq]
  refine List.rel_flatMap hkept ?_
  rintro n n' ⟨hn, hdeclared⟩
  obtain ⟨hmem, hid⟩ := List.mem_filter.1 hn
  rw [List.forall₂_eq_eq_eq]
  refine hdeclared.map_openFeeds fun k => ?_
  rw [← hdeclared.id]
  exact enters_select_iff h hfits (of_decide_eq_true hid) (h.id_mem_nodeIds hmem) k

/-- With all of its nodes a graph is compiled as it is. -/
theorem compileFrom_select_nodeIds
    (hlinks : ∀ l ∈ g.links, l.fromNode ∈ g.nodeIds ∧ l.toNode ∈ g.nodeIds) (start : Register)
    (options : ExportOptions) :
    compileFrom start catalog (g.select g.nodeIds) options =
      compileFrom start catalog g options := by
  have hnodes : (g.select g.nodeIds).nodes = g.written.nodes := by
    rw [nodes_select, List.filter_eq_self]
    intro n hn
    rw [decide_eq_true_iff, ← nodeIds_written, nodeIds, idsFrom_eq_map g.explicitIds_written]
    exact List.mem_map_of_mem hn
  have hkept : (g.select g.nodeIds).links = g.links := by
    have hall : ∀ l ∈ g.links, l ∈ (g.select g.nodeIds).links := by
      intro l hl
      obtain ⟨hfrom, hto⟩ := hlinks l hl
      exact mem_links_select.2 ⟨hl, ⟨hfrom, hfrom⟩, hto, hto⟩
    exact List.filter_eq_self.2 fun l hl => (List.mem_filter.1 (hall l hl)).2
  simp only [compileFrom, hnodes, createNodes_written, hkept]

end Graph

namespace Plan

variable {catalog : Catalog} {g : Graph} {options : ExportOptions} {ng : NodeGraph}
  {order : List Nat} {p : Plan}

/-- A plan has one stage for each node of the graph. -/
theorem NodeGraph.Compiles.map_node_perm (hc : ng.Compiles g options order p)
    (h : ng.Represents catalog g) : (p.stages.map Stage.node).Perm g.nodeIds := by
  have hnode : p.stages.map Stage.node = (pick ng.nodes order).map Node.id := by
    rw [hc.stages_eq, List.map_map]
    rfl
  rw [hnode]
  exact (hc.pick_nodes_perm.map Node.id).trans h.map_id_perm

/-- Every part of a graph that can be compiled can be compiled, whichever of its outputs are
exported. Its nodes keep the ids they go by. Its surface declares the hidden inputs of the kept
nodes, and then, under the first free names, their value inputs with the defaults that they have in
the whole graph and those of their slots that no link from a kept node enters. With all of its nodes
a graph is compiled into the same plan. -/
theorem compileFrom_select (start : Register) (catalog : Catalog) (g : Graph)
    (options : ExportOptions) (p : Plan) (h : compileFrom start catalog g options = .ok p)
    (ids : List NodeId) :
    (g.select ids).nodeIds = g.nodeIds.filter (· ∈ ids) ∧
    (∃ ng, createNodes catalog start g.nodes = .ok ng ∧
      ∀ (start' : Register) (options' : ExportOptions),
        ∃ p', compileFrom start' catalog (g.select ids) options' = .ok p' ∧
          (p'.stages.map Stage.node).Perm (g.nodeIds.filter (· ∈ ids)) ∧
          p'.inputs.entries.map (fun e => (e.1, Input.declaration e.2)) =
            declaredSurface
              (Vertex.hiddenInputs ((g.vertices catalog).filter fun v => v.id ∈ ids))
              (((ng.nodes.filter fun n => n.id ∈ ids).flatMap
                (Node.openFeeds (g.links.filter fun l => l.fromNode ∈ ids))).map
                  Input.declaration)) ∧
    ∀ (start' : Register) (options' : ExportOptions),
      compileFrom start' catalog (g.select g.nodeIds) options' =
        compileFrom start' catalog g options' := by
  obtain ⟨ng, order, hcreate, hrepresents, hc⟩ := compiles_of_compileFrom_eq_ok h
  have hwell : g.WellFormed catalog :=
    wellFormed_iff.2 (compileFrom_isOk_iff.1 ⟨p, h⟩)
  refine ⟨g.nodeIds_select_eq_filter ids, ⟨ng, hcreate, fun start' options' => ?_⟩, ?_⟩
  · obtain ⟨p', hp'⟩ : ∃ p', compileFrom start' catalog (g.select ids) options' = .ok p' :=
      compileFrom_isOk_iff.2 (wellFormed_iff.1 (hwell.select ids))
    obtain ⟨ng', order', hcreate', hrepresents', hc'⟩ := compiles_of_compileFrom_eq_ok hp'
    refine ⟨p', hp', ?_, ?_⟩
    · rw [← Graph.nodeIds_select_eq_filter]
      exact hc'.map_node_perm hrepresents'
    · rw [map_declaration_inputs hcreate' hc', Graph.hiddenInputs_select,
        Graph.map_openFeeds_select hcreate hc.fits hcreate']
  · intro start' options'
    refine Graph.compileFrom_select_nodeIds (fun l hl => ?_) start' options'
    exact hrepresents.ends_mem_nodeIds (hc.fits l hl)

/-- Without the relay it reads from, the slot of the first relay is exported, before the input of
the spare one. -/
theorem relays_select :
    ∃ p p', compileFrom .first relayCatalog relayGraph .default = .ok p ∧
      compileFrom ⟨4⟩ relayCatalog (relayGraph.select [⟨"late"⟩, ⟨"spare"⟩]) spareOptions = .ok p' ∧
      (p'.stages.map Stage.node).Perm [⟨"late"⟩, ⟨"spare"⟩] ∧
      p'.inputs.entries.map (fun e => (e.1, Input.declaration e.2)) =
        [("context", .hidden, "context", .ofType "ANY"),
          ("value", .required, "value", .ofType "INT"),
          ("value_2", .required, "value", .ofType "INT")] := by
  obtain ⟨-, ⟨ng, hcreate, hparts⟩, -⟩ :=
    compileFrom_select .first relayCatalog relayGraph .default _ rfl [⟨"late"⟩, ⟨"spare"⟩]
  cases hcreate
  obtain ⟨p', hp', hnodes, hsurface⟩ := hparts ⟨4⟩ spareOptions
  exact ⟨_, p', rfl, hp', hnodes, hsurface.trans rfl⟩

end Plan

end StepGraph
