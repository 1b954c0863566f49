import StepGraph.Proofs.Dataflow.Evaluation
import StepGraph.Proofs.Pipeline

/-!
# The names on the surface are those of the graph

Where the steps do not declare one name twice, the inputs of a node are known by the ids of their
nodes and their names. A link then leads to the register of an input exactly if it feeds the input
of that name, the inputs that are exported are the open inputs of the graph, in the same order, and
so are the outputs. Hence the names that the compiler gives them are those of `Graph.inputNames` and
`Graph.outputNames`.
-/

namespace StepGraph

open Plan

theorem InputSchema.names_eq (s : InputSchema) :
    s.names = (s.visible.map fun e => e.2.1) ++ s.hidden.keys := by
  rw [names, entries_eq, List.map_append, List.map_map]
  rfl

namespace InputSchema

variable {s : InputSchema} (h : s.names.Nodup)

include h

theorem nodup_visible_of_names : (s.visible.map fun e => e.2.1).Nodup := by
  rw [names_eq] at h
  exact (List.nodup_append.1 h).1

theorem not_mem_hidden_of_names {x : String} (hx : x ∈ s.visible.map fun e => e.2.1) :
    x ∉ s.hidden.keys := by
  rw [names_eq] at h
  exact fun hhidden => (List.nodup_append.1 h).2.2 x hx x hhidden rfl

end InputSchema

/-- A step reads its visible inputs and then its hidden ones. -/
theorem Plan.entries_argumentMap {schema : InputSchema} (h : schema.names.Nodup) (start : Register)
    (hidden : InputMap) :
    (argumentMap start hidden schema).entries =
      (freshInputs start schema.visible).map (fun i => (i.name, i.register)) ++
        schema.hidden.entries.map fun e => (e.1, hiddenRegister hidden e.1) := by
  refine OrderedMap.entries_ofList_of_nodup ?_
  rw [InputSchema.names_eq, ← map_name_freshInputs start] at h
  rw [Entries.keys, List.map_append, List.map_map, List.map_map]
  exact h

namespace Vertex.Makes

variable {hidden : InputMap} {start : Register} {v : Vertex} {n : Node}

theorem map_name_feeds (h : v.Makes hidden start n)
    (hnames : v.step.schema.names.Nodup) : n.feeds.map Input.name = v.feedNames := by
  obtain ⟨rest, htake, hinputs⟩ := h.separated
  have hfresh := map_name_freshInputs start v.step.schema.visible
  have hrest := rest_eq_filter_of_takeInputs htake
    (hfresh ▸ InputSchema.nodup_visible_of_names hnames)
  rw [Node.feeds, List.map_append, h.map_name_slots, hinputs, map_assignDefaults fun _ _ => rfl,
    hrest, Vertex.feedNames, ← hfresh, List.filter_map]
  rfl

theorem nodup_feedNames (h : v.Makes hidden start n)
    (hnames : v.step.schema.names.Nodup) : v.feedNames.Nodup := by
  rw [← h.map_name_feeds hnames, (h.perm_feeds fun _ _ => rfl).nodup_iff, map_name_freshInputs]
  exact InputSchema.nodup_visible_of_names hnames

end Vertex.Makes

namespace Plan.NodeGraph

variable {catalog : Catalog} {g : Graph} {ng : NodeGraph} {options : ExportOptions}
  {order : List Nat} {p : Plan} {v : Vertex} {n : Node} {i : Input} {start : Register}

theorem Represents.flatMap_eq {α : Type*} (h : ng.Represents catalog g) {f : Vertex → List α}
    {f' : Node → List α}
    (hf : ∀ v ∈ g.vertices catalog, ∀ n ∈ ng.nodes, ∀ start, v.Makes ng.hidden start n →
      f v = f' n) : (g.arranged catalog).flatMap f = ng.nodes.flatMap f' := by
  have hall : ∀ v ∈ g.arranged catalog, ∀ n ∈ ng.nodes,
      (∃ start, v.Makes ng.hidden start n) → f v = f' n := by
    rintro v hv n hn ⟨start, hmakes⟩
    exact hf v ((g.arranged_perm catalog).mem_iff.1 hv) n hn start hmakes
  have hmakes := h.makes
  generalize g.arranged catalog = vs at hall hmakes
  generalize ng.nodes = ns at hall hmakes
  induction hmakes with
  | nil => rfl
  | cons hvn _ ih =>
      rw [List.flatMap_cons, List.flatMap_cons, hall _ (List.mem_cons_self ..) _
        (List.mem_cons_self ..) hvn, ih]
      intro v hv n hn
      exact hall v (List.mem_cons_of_mem _ hv) n (List.mem_cons_of_mem _ hn)

/-! ## Links and names -/

section

variable (h : ng.Represents catalog g) (hfits : ∀ l ∈ g.links, Fits ng.nodes l)
  (hn : n ∈ ng.nodes) (hmakes : v.Makes ng.hidden start n)
  (hnames : v.step.schema.names.Nodup) (hi : i ∈ n.feeds)

include h hfits hn hmakes hnames hi

/-- A link leads to the register of an input if it goes to the slot of that name. -/
theorem Represents.register_linkWire_eq_iff {l : Graph.Link} (hl : l ∈ g.links) :
    (linkWire ng.nodes l).register = i.register ↔
      l.toNode = v.id ∧ v.slotNames[l.toSlot.toNat]? = some i.name := by
  obtain ⟨t, ht, a, htid, hslot, hwire⟩ := h.exists_slot_of_fits (hfits l hl)
  have ha := mem_feeds_of_slot hslot
  rw [hwire, ← hmakes.map_name_slots, List.getElem?_map, ← hmakes.id, ← htid]
  constructor
  · intro heq
    obtain ⟨rfl, rfl⟩ := h.eq_of_register_eq ht hn ha hi heq
    rw [hslot]
    exact ⟨rfl, rfl⟩
  · rintro ⟨hid, hname⟩
    obtain rfl : t = n := List.inj_on_of_nodup_map h.nodup_ids ht hn hid
    rw [hslot] at hname
    have hfeeds : (t.feeds.map Input.name).Nodup := by
      rw [hmakes.map_name_feeds hnames]
      exact hmakes.nodup_feedNames hnames
    obtain rfl : a = i := List.inj_on_of_nodup_map hfeeds ha hi (Option.some.inj hname)
    rfl

/-- The wires to the register of an input are the links that feed it. -/
theorem Represents.mem_wires_iff_feeds {source : NodeId} {k : Nat} :
    ⟨source, k, i.register⟩ ∈ ng.wires g options ↔ g.Feeds source k v i.name := by
  constructor
  · intro hw
    obtain ⟨l, hl, hwire, -⟩ :=
      h.exists_link_of_wire hfits hw (mem_ownedInputs_of_feed hn hi) rfl
    have hto := (h.register_linkWire_eq_iff hfits hn hmakes hnames hi hl).1
      (congrArg Wire.register hwire)
    exact ⟨l, hl, ⟨congrArg Wire.source hwire, congrArg Wire.slot hwire⟩, hto⟩
  · rintro ⟨l, hl, ⟨rfl, rfl⟩, hto⟩
    have hregister := (h.register_linkWire_eq_iff hfits hn hmakes hnames hi hl).2 hto
    refine mem_wires.2 (Or.inl ⟨l, hl, ?_⟩)
    rw [← hregister]
    rfl

theorem Represents.mem_linked_iff :
    i.register ∈ (ng.linkWires g).map Wire.register ↔ g.Linked v i.name := by
  simp only [linkWires, List.map_map, List.mem_map, Function.comp_apply]
  constructor
  · rintro ⟨l, hl, heq⟩
    exact ⟨l, hl, (h.register_linkWire_eq_iff hfits hn hmakes hnames hi hl).1 heq⟩
  · rintro ⟨l, hl, hto⟩
    exact ⟨l, hl, (h.register_linkWire_eq_iff hfits hn hmakes hnames hi hl).2 hto⟩

end

/-! ## Exported inputs -/

/-- The inputs that no link feeds, with the ids of their nodes. -/
def freeFeeds (ng : NodeGraph) (g : Graph) : List (NodeId × Input) :=
  ng.nodes.flatMap fun n =>
    (n.feeds.filter fun i => i.register ∉ (ng.linkWires g).map Wire.register).map fun i => (n.id, i)

theorem map_snd_freeFeeds (ng : NodeGraph) (g : Graph) :
    (ng.freeFeeds g).map Prod.snd = ng.freeInputs g := by
  rw [freeFeeds, freeInputs, openInputs, List.map_flatMap, List.filter_flatMap]
  simp only [List.map_map]
  exact List.flatMap_congr fun n _ => List.map_id _

section

variable (h : ng.Represents catalog g)
  (hnames : ∀ v ∈ g.vertices catalog, v.step.schema.names.Nodup)

include h hnames

/-- They are the open inputs of the graph. -/
theorem Represents.map_freeFeeds (hfits : ∀ l ∈ g.links, Fits ng.nodes l) :
    (ng.freeFeeds g).map (fun e => (e.1, e.2.name)) = g.openInputs catalog := by
  rw [freeFeeds, List.map_flatMap]
  refine (h.flatMap_eq fun v hv n hn start hmakes => ?_).symm
  have hfilter : (n.feeds.filter fun i =>
      i.register ∉ (ng.linkWires g).map Wire.register).map Input.name =
        v.feedNames.filter fun x => ¬ g.Linked v x := by
    rw [← hmakes.map_name_feeds (hnames v hv), List.filter_map]
    refine congrArg (List.map Input.name) (List.filter_congr fun i hi => ?_)
    exact decide_eq_decide.2
      (not_congr (h.mem_linked_iff hfits hn hmakes (hnames v hv) hi))
  rw [← hfilter, List.map_map, List.map_map, ← hmakes.id]
  rfl

theorem Represents.nodup_openInputs : (g.openInputs catalog).Nodup := by
  have hids : ((g.arranged catalog).map Vertex.id).Nodup := h.map_id ▸ h.nodup_ids
  refine List.nodup_flatMap.2 ⟨fun v hv => ?_, ?_⟩
  · obtain ⟨n, hn, start, hmakes⟩ := exists_of_mem_forall₂ h.makes hv
    have hv := (g.arranged_perm catalog).mem_iff.1 hv
    refine List.Nodup.map ?_ ((hmakes.nodup_feedNames (hnames v hv)).filter _)
    exact fun x y hxy => congrArg Prod.snd hxy
  · refine (List.pairwise_map.1 hids).imp ?_
    intro v w hne e hev hew
    obtain ⟨x, -, rfl⟩ := List.mem_map.1 hev
    obtain ⟨y, -, hy⟩ := List.mem_map.1 hew
    exact hne (congrArg Prod.fst hy).symm

theorem Compiles.entries_inputs (hc : ng.Compiles g options order p) :
    p.inputs.entries = ng.hidden.entries ++
      (g.inputNames catalog).zip (ng.freeInputs g) := by
  rw [hc.inputs, Graph.inputNames, h.keys_hidden, ← h.map_freeFeeds hnames hc.fits,
    ← map_snd_freeFeeds, List.map_map, List.map_map]
  rfl

theorem Compiles.keys_inputs (hc : ng.Compiles g options order p) :
    p.inputs.keys = g.hiddenNames catalog ++ g.inputNames catalog := by
  have hlength : (g.inputNames catalog).length ≤ (ng.freeInputs g).length := by
    rw [Graph.inputNames, length_exportNames, ← h.map_freeFeeds hnames hc.fits, ← map_snd_freeFeeds]
    simp
  rw [OrderedMap.keys, hc.entries_inputs h hnames, Entries.keys, List.map_append,
    List.map_fst_zip hlength, ← h.keys_hidden]
  rfl

/-- An input that no link feeds is on the surface under the name that the graph says. -/
theorem Compiles.exists_exportedName (hc : ng.Compiles g options order p)
    (hv : v ∈ g.vertices catalog) (hn : n ∈ ng.nodes) (hmakes : v.Makes ng.hidden start n)
    (hi : i ∈ n.feeds) (hopen : ¬ g.Linked v i.name) :
    ∃ name, g.exportedName? catalog v i.name = some name ∧ p.inputs.find? name = some i := by
  have hfree : (n.id, i) ∈ ng.freeFeeds g := by
    refine List.mem_flatMap.2 ⟨n, hn, List.mem_map_of_mem (List.mem_filter.2 ⟨hi, ?_⟩)⟩
    rw [decide_eq_true_iff, h.mem_linked_iff hc.fits hn hmakes (hnames v hv) hi]
    exact hopen
  -- the input stands at one place `t` in the lists of inputs, open inputs and names
  obtain ⟨t, ht⟩ := List.mem_iff_getElem?.1 hfree
  have hinput : (g.openInputs catalog)[t]? = some (v.id, i.name) := by
    rw [← h.map_freeFeeds hnames hc.fits, List.getElem?_map, ht, ← hmakes.id]
    rfl
  have hfreeInput : (ng.freeInputs g)[t]? = some i := by
    rw [← map_snd_freeFeeds, List.getElem?_map, ht]
    rfl
  have hlength : (g.inputNames catalog).length = (g.openInputs catalog).length := by
    rw [Graph.inputNames, length_exportNames, List.length_map]
  have htlt : t < (g.inputNames catalog).length := by
    rw [hlength]
    exact (List.getElem?_eq_some_iff.1 hinput).1
  refine ⟨(g.inputNames catalog)[t], ?_, OrderedMap.find?_eq_some_iff.2 ?_⟩
  · have hkeys : Entries.keys ((g.openInputs catalog).zip (g.inputNames catalog)) =
        g.openInputs catalog := List.map_fst_zip (Nat.le_of_eq hlength.symm)
    have hunique := h.nodup_openInputs hnames
    refine (Entries.find?_eq_some_iff (hkeys.symm ▸ hunique)).2 (List.mem_iff_getElem?.2 ⟨t, ?_⟩)
    exact List.getElem?_zip_eq_some.2 ⟨hinput, List.getElem?_eq_getElem htlt⟩
  · rw [hc.entries_inputs h hnames]
    refine List.mem_append_right _ (List.mem_iff_getElem?.2 ⟨t, ?_⟩)
    exact List.getElem?_zip_eq_some.2 ⟨List.getElem?_eq_getElem htlt, hfreeInput⟩

end

/-! ## Exported outputs -/

theorem map_selectedFrom {ws : List Wire} {id : NodeId}
    (hws : ∀ k name, g.isExported options id k name = true ↔
      match options.allowed with
      | some keys => keys.contains (id.text ++ " " ++ name) = true
      | none => wiredFrom ws id k = []) (specs : List OutputSpec) (k : Nat) :
    (selectedFrom options id k (specs.mapIdx fun j o =>
        ⟨o.name, o.typeTag, wiredFrom ws id (k + j)⟩)).map
        (fun s => (s.1, s.2.1, wantedName options s.1 s.2.2)) =
      ((specs.zipIdx k).filter fun e => g.isExported options id e.2 e.1.name).map fun e =>
        (id, e.2, (options.renames.find? (id.text ++ " " ++ e.1.name)).getD e.1.name) := by
  induction specs generalizing k with
  | nil => rfl
  | cons o specs ih =>
      have hrest := ih (k + 1)
      have hindex : ∀ j, k + 1 + j = k + (j + 1) := by omega
      simp only [hindex] at hrest
      have hexported : isExported options id ⟨o.name, o.typeTag, wiredFrom ws id k⟩ =
          g.isExported options id k o.name := by
        rw [Bool.eq_iff_iff, hws, isExported]
        cases options.allowed with
        | some keys => rfl
        | none => exact List.isEmpty_iff
      rw [List.mapIdx_cons, List.zipIdx_cons, selectedFrom, Nat.add_zero, hexported]
      by_cases hselected : g.isExported options id k o.name = true
      · simp only [hselected, if_true, List.filter_cons, List.map_cons, hrest]
        rfl
      · simp only [hselected, List.filter_cons, hrest, Bool.false_eq_true, if_false]

theorem Represents.map_selectedOutputs (h : ng.Represents catalog g) :
    (selectedOutputs options (ng.nodes.map (Node.attach (ng.linkWires g)))).map
        (fun s => (s.1, s.2.1, wantedName options s.1 s.2.2)) =
      g.exportedOutputs catalog options := by
  rw [selectedOutputs, List.flatMap_map, List.map_flatMap]
  refine (h.flatMap_eq fun v hv n hn start hmakes => ?_).symm
  have houtputs : (n.attach (ng.linkWires g)).outputs = v.step.outputs.mapIdx fun j o =>
      ⟨o.name, o.typeTag, wiredFrom (ng.linkWires g) v.id (0 + j)⟩ := by
    refine List.ext_getElem? fun k => ?_
    rw [getElem?_outputs_attach, hmakes.outputs, hmakes.id, List.getElem?_map,
      List.getElem?_mapIdx, Option.map_map, Nat.zero_add]
    rfl
  rw [houtputs, id_attach, hmakes.id, map_selectedFrom]
  intro k name
  rw [Graph.isExported]
  cases options.allowed with
  | some keys => rfl
  | none => simp [wiredFrom, linkWires, linkWire, List.filter_eq_nil_iff]

theorem Represents.map_name_exports (h : ng.Represents catalog g) :
    (ng.exports g options).map (fun x => x.output.name) = g.outputNames catalog options := by
  have hselected := @Represents.map_selectedOutputs catalog g ng options h
  rw [exports, exportsOf, map_name_exportsFrom, Graph.outputNames, ← hselected, List.map_map]
  rfl

/-- The exported outputs have the places and the names that the graph says. -/
theorem Represents.map_exports (h : ng.Represents catalog g) :
    (ng.exports g options).map (fun x => (x.output.name, x.source, x.slot)) =
      (g.outputNames catalog options).zip
        ((g.exportedOutputs catalog options).map fun e => (e.1, e.2.1)) := by
  have hselected := @Represents.map_selectedOutputs catalog g ng options h
  have hnames := @Represents.map_name_exports catalog g ng options h
  have hplaces : (ng.exports g options).map (fun x => (x.source, x.slot)) =
      (g.exportedOutputs catalog options).map fun e => (e.1, e.2.1) := by
    have hmap := congrArg (List.map fun e : NodeId × Nat × String => (e.1, e.2.1))
      (@map_exportsFrom options [] ng.next
        (selectedOutputs options (ng.nodes.map (Node.attach (ng.linkWires g)))))
    rw [List.map_map, List.map_map] at hmap
    rw [← hselected, List.map_map]
    exact hmap
  rw [← hnames, ← hplaces, List.zip_map']

end Plan.NodeGraph

end StepGraph
