import StepGraph.Proofs.Dataflow.Naming
import StepGraph.Proofs.Dataflow.Writing

/-!
# Running a compiled graph is evaluating the graph

While the stages of a compiled graph run, the store and the history of the values returned so far
say the same: `Recorded` says that a register holds the latest value that a wire has led there, and
otherwise what it held at the start. A stage keeps that up. It is enough to find in the store the
arguments that the graph says, and at the end the values of the exported outputs. So a run of the
stages and an evaluation of the graph take every step together.
-/

namespace StepGraph

open Plan

/-- The store holds in each register the latest value that a wire has led there; in the others it is
as at the start. -/
def Recorded (ws : List Wire) (start : Store) (h : History) (s : Store) : Prop :=
  ∀ r, s.find? r =
    (h.findSome? fun e => lastWhere (fun k => ⟨e.1, k, r⟩ ∈ ws) e.2).or (start.find? r)

theorem Recorded.nil (ws : List Wire) (start : Store) : Recorded ws start [] start := fun _ => rfl

theorem lastFrom_add_eq (k m : Nat) (values : List Json) :
    lastFrom (fun j => j = k + m) k values = values[m]? := by
  induction values generalizing k m with
  | nil => rfl
  | cons value values ih =>
      rw [lastFrom_cons]
      cases m with
      | zero =>
          have hnone : lastFrom (fun j => j = k + 0) (k + 1) values = none :=
            lastFrom_eq_none (k + 1) (by omega)
          rw [hnone]
          simp
      | succ m =>
          have hindex : k + (m + 1) = k + 1 + m := by omega
          have hne : ¬ k = k + 1 + m := by omega
          rw [hindex, ih (k + 1) m, if_neg hne, Option.or_none, List.getElem?_cons_succ]

theorem keys_filterMap_sublist {f : String → Option Json} (xs : List String) :
    (Entries.keys (xs.filterMap fun x => (f x).map fun value => (x, value))).Sublist xs := by
  induction xs with
  | nil => exact List.Sublist.refl _
  | cons x xs ih =>
      rw [List.filterMap_cons]
      cases f x with
      | none => exact ih.cons x
      | some value => exact ih.cons_cons x

namespace Plan.NodeGraph

variable {catalog : Catalog} {g : Graph} {ng : NodeGraph} {options : ExportOptions}
  {order : List Nat} {p : Plan} {v : Vertex} {n : Node} {i : Input} {start : Register}
  {init s : Store} {h : History} {params : Params}

theorem Represents.exists_output_of_mem_wires (hrepresents : ng.Represents catalog g)
    (hfits : ∀ l ∈ g.links, Fits ng.nodes l) (hn : n ∈ ng.nodes) {k : Nat} {r : Register}
    (hw : ⟨n.id, k, r⟩ ∈ ng.wires g options) : k < n.outputs.length := by
  rcases mem_wires.1 hw with ⟨l, hl, hwire⟩ | ⟨x, hx, hwire⟩
  · obtain ⟨m, hm, -, -, output, -, hmid, -, -, hout, -⟩ := hfits l hl
    have hid : m.id = n.id := hmid.trans (congrArg Wire.source hwire)
    obtain rfl : m = n := List.inj_on_of_nodup_map hrepresents.nodup_ids hm hn hid
    rw [← show l.fromSlot.toNat = k from congrArg Wire.slot hwire]
    exact (List.getElem?_eq_some_iff.1 hout).1
  · obtain ⟨m, hm, hmid, hslot⟩ := exists_node_of_mem_exports hx
    have hid : m.id = n.id := hmid.trans (congrArg Wire.source hwire)
    obtain rfl : m = n := List.inj_on_of_nodup_map hrepresents.nodup_ids hm hn hid
    rw [← show x.slot = k from congrArg Wire.slot hwire]
    exact hslot

/-- A stage that writes its values records that they have been returned. -/
theorem Represents.recorded_write (hrepresents : ng.Represents catalog g)
    (hfits : ∀ l ∈ g.links, Fits ng.nodes l) (hn : n ∈ ng.nodes)
    (hs : Recorded (ng.wires g options) init h s) (values : List Json) :
    Recorded (ng.wires g options) init ((n.id, values) :: h)
      (Stage.write (ng.stage g options n).outputs values s) := by
  intro r
  have hplace : ∀ j, ⟨n.id, 0 + j, r⟩ ∈ ng.wires g options ↔
      ∃ registers, (ng.stage g options n).outputs[j]? = some registers ∧ r ∈ registers := by
    intro j
    rw [Nat.zero_add, hrepresents.getElem?_outputs_stage hn]
    constructor
    · intro hw
      have hj := hrepresents.exists_output_of_mem_wires hfits hn hw
      exact ⟨_, by rw [List.getElem?_eq_getElem hj]; rfl, mem_wiredFrom.2 hw⟩
    · rintro ⟨registers, hregisters, hr⟩
      obtain ⟨o, -, rfl⟩ := Option.map_eq_some_iff.1 hregisters
      exact mem_wiredFrom.1 hr
  have hwrite := @Stage.find?_write (fun k => ⟨n.id, k, r⟩ ∈ ng.wires g options) _ r
    (ng.stage g options n).outputs values s 0 hplace
  rw [hwrite, hs r, ← lastWhere_eq_lastFrom, List.findSome?_cons]
  cases lastWhere (fun k => ⟨n.id, k, r⟩ ∈ ng.wires g options) values with
  | none => rfl
  | some value => rfl

/-! ## Arguments -/

theorem find?_of_not_wired {ws : List Wire} {r : Register} (hs : Recorded ws init h s)
    (hr : ∀ w ∈ ws, w.register ≠ r) : s.find? r = init.find? r := by
  have hnone : (h.findSome? fun e => lastWhere (fun k => ⟨e.1, k, r⟩ ∈ ws) e.2) = none := by
    refine List.findSome?_eq_none_iff.2 fun e _ => ?_
    rw [lastWhere_eq_lastFrom]
    exact lastFrom_eq_none 0 fun j hw => hr _ hw rfl
  rw [hs r, hnone]
  rfl

/-- Parameters for inputs of the surface go to the registers of these inputs, and all others are
empty. -/
theorem Compiles.exists_seed (hc : ng.Compiles g options order p)
    (hrepresents : ng.Represents catalog g) (hparams : ∀ x ∈ params.keys, x ∈ p.inputs.keys) :
    ∃ init, Store.seed p.inputs params = .ok init ∧
      (∀ name i r, p.inputs.find? name = some i → r ∈ i.registers →
        init.find? r = params.find? name) ∧
      ∀ r, r ∉ Surface.registers p.inputs → init.find? r = none :=
  Store.exists_seed (hc.nodup_registers hrepresents) hparams

section

variable (hrepresents : ng.Represents catalog g) (hc : ng.Compiles g options order p)
  (hnames : ∀ v ∈ g.vertices catalog, v.step.schema.names.Nodup)
  (hinit : ∀ name i r, p.inputs.find? name = some i → r ∈ i.registers →
    init.find? r = params.find? name)
  (hothers : ∀ r, r ∉ Surface.registers p.inputs → init.find? r = none)
  (hs : Recorded (ng.wires g options) init h s)

include hrepresents hc hinit hs

theorem Compiles.find?_of_owned {name : String} (hi : p.inputs.find? name = some i)
    (hone : i.registers = [i.register]) : s.find? i.register = params.find? name := by
  have hr : i.register ∈ i.registers := by simp [hone]
  have hown : i.register ∈ Surface.registers p.inputs :=
    exists_owns_iff.1 ⟨name, i, hi, hr⟩
  rw [find?_of_not_wired hs fun w hw => hc.not_mem_wires hrepresents hown hw]
  exact hinit name i _ hi hr

theorem Compiles.find?_of_hidden {x : String} (hi : ng.hidden.find? x = some i) :
    s.find? i.register = params.find? x := by
  have hentry := OrderedMap.find?_eq_some_iff.1 hi
  refine hc.find?_of_owned hrepresents hinit hs (OrderedMap.find?_eq_some_iff.2 ?_)
    (hrepresents.inputs.1 i (mem_ownedInputs_of_hidden (List.mem_map_of_mem hentry)))
  rw [hc.inputs]
  exact List.mem_append_left _ hentry

include hnames hothers

/-- The register of a slot or value input holds the argument that the graph says. -/
theorem Compiles.find?_of_feed (hv : v ∈ g.vertices catalog) (hn : n ∈ ng.nodes)
    (hmakes : v.Makes ng.hidden start n) (hi : i ∈ n.feeds) :
    s.find? i.register = g.argument? catalog params h v i.name := by
  have hname : i.name ∉ v.step.schema.hidden.keys := by
    refine InputSchema.not_mem_hidden_of_names (hnames v hv) ?_
    rw [← map_name_freshInputs start]
    exact ((hmakes.perm_feeds fun _ _ => rfl).mem_iff).1 (List.mem_map_of_mem hi)
  rw [Graph.argument?, if_neg hname]
  by_cases hlinked : g.Linked v i.name
  · rw [if_pos hlinked]
    have hwired : i.register ∈ (ng.linkWires g).map Wire.register :=
      (hrepresents.mem_linked_iff hc.fits hn hmakes (hnames v hv) hi).2 hlinked
    have hunowned : i.register ∉ Surface.registers p.inputs := by
      intro hown
      obtain ⟨w, hw, hreg⟩ := List.mem_map.1 hwired
      exact hc.not_mem_wires hrepresents hown (List.mem_append_left _ hw) hreg
    have hfeeds : ∀ source k, ⟨source, k, i.register⟩ ∈ ng.wires g options ↔
        g.Feeds source k v i.name := fun _ _ =>
      hrepresents.mem_wires_iff_feeds hc.fits hn hmakes (hnames v hv) hi
    rw [hs, hothers _ hunowned, Option.or_none, Graph.fedValue?]
    simp only [hfeeds]
  · rw [if_neg hlinked]
    obtain ⟨name, hexported, hfind⟩ :=
      hc.exists_exportedName hrepresents hnames hv hn hmakes hi hlinked
    rw [hexported]
    refine hc.find?_of_owned hrepresents hinit hs hfind ?_
    exact hrepresents.inputs.1 i (mem_ownedInputs_of_feed hn hi)

/-- A stage finds in the store the arguments that the graph says. -/
theorem Compiles.arguments_eq (hv : v ∈ g.vertices catalog) (hn : n ∈ ng.nodes)
    (hmakes : v.Makes ng.hidden start n) :
    (ng.stage g options n).arguments s = g.arguments catalog params h v := by
  let entries := ((freshInputs start v.step.schema.visible).map fun i => (i.name, i.register)) ++
    v.step.schema.hidden.entries.map fun e => (e.1, hiddenRegister ng.hidden e.1)
  have hkeys : entries.map Prod.fst = v.step.schema.names := by
    rw [InputSchema.names_eq, List.map_append, List.map_map, List.map_map,
      ← map_name_freshInputs start]
    rfl
  have hmap : n.inputMap.entries = entries := by
    rw [hmakes.inputMap]
    exact entries_argumentMap (hnames v hv) start ng.hidden
  have hfind : ∀ e ∈ entries, s.find? e.2 = g.argument? catalog params h v e.1 := by
    intro e he
    rcases List.mem_append.1 he with he | he
    · obtain ⟨i, hi, rfl⟩ := List.mem_map.1 he
      have hperm := hmakes.perm_feeds (f := fun i => (i.name, i.register)) fun _ _ => rfl
      obtain ⟨j, hj, heq⟩ := List.mem_map.1 (hperm.mem_iff.2 (List.mem_map_of_mem hi))
      rw [← heq]
      exact hc.find?_of_feed hrepresents hnames hinit hothers hs hv hn hmakes hj
    · obtain ⟨f, hf, rfl⟩ := List.mem_map.1 he
      obtain ⟨i, hi, -⟩ := hrepresents.agrees v hv f hf
      have hhidden : f.1 ∈ v.step.schema.hidden.keys := List.mem_map_of_mem hf
      rw [Graph.argument?, if_pos hhidden, hiddenRegister_of_find? hi]
      exact hc.find?_of_hidden hrepresents hinit hs hi
  apply OrderedMap.ext_entries
  have hargs : (Entries.keys (v.step.schema.names.filterMap fun x =>
      (g.argument? catalog params h v x).map fun value => (x, value))).Nodup :=
    (hnames v hv).sublist (keys_filterMap_sublist _)
  rw [Graph.arguments, OrderedMap.entries_ofList_of_nodup hargs, ← hkeys, List.filterMap_map]
  refine (congrArg _ hmap).trans (List.filterMap_congr fun e he => ?_)
  simp only [Function.comp_apply]
  rw [hfind e he]

/-! ## Runs -/

/-- The stages and the vertices take every step together. -/
theorem Compiles.matches_processStages {vs : List Vertex} {ns : List Node} {ui : UiMap}
    (hmakes : List.Forall₂ (fun v n => ∃ start, v.Makes ng.hidden start n) vs ns)
    (hvs : ∀ v ∈ vs, v ∈ g.vertices catalog) (hns : ∀ n ∈ ns, n ∈ ng.nodes) :
    Run.Matches (fun a b => Recorded (ng.wires g options) init b.1 a.1 ∧ a.2 = b.2)
      (Artifact.processStages (ns.map (ng.stage g options)) s ui)
      (g.evaluateFrom catalog params vs h ui) := by
  induction hmakes generalizing s h ui with
  | nil => exact .ok ⟨hs, rfl⟩
  | @cons v n vs ns hvn _ ih =>
      obtain ⟨start, hvn⟩ := hvn
      obtain ⟨hv, hvs⟩ := List.forall_mem_cons.1 hvs
      obtain ⟨hn, hns⟩ := List.forall_mem_cons.1 hns
      have hargs := hc.arguments_eq hrepresents hnames hinit hothers hs hv hn hvn
      have hinvoke : ((ng.stage g options n).step.invoke
          ((ng.stage g options n).arguments s)).mapError
            (.within .invoke (ng.stage g options n).node (ng.stage g options n).type) =
          (v.step.invoke (g.arguments catalog params h v)).mapError
            (.within .invoke v.id v.saved.type) := by
        rw [hargs, ← hvn.step, ← hvn.id, ← hvn.type]
        rfl
      rw [List.map_cons, Artifact.processStages, Graph.evaluateFrom, Stage.process, hinvoke,
        bind_assoc]
      -- the calls are the same, so that only what is kept of the values differs
      refine Run.Matches.bind (Run.Matches.refl _) ?_
      rintro output _ rfl
      rw [pure_bind, ← hvn.id]
      exact ih (hrepresents.recorded_write hc.fits hn hs output.values) hvs hns

omit hnames hinit in
/-- At the end the register of an exported output holds what its vertex has returned. -/
theorem Compiles.readOutputs_eq {xs : List Export} (hxs : ∀ x ∈ xs, x ∈ ng.exports g options) :
    Artifact.readOutputs s (xs.map Export.output) =
      Graph.collect h (xs.map fun x => (x.output.name, x.source, x.slot)) := by
  induction xs with
  | nil => rfl
  | cons x xs ih =>
      obtain ⟨hx, hxs⟩ := List.forall_mem_cons.1 hxs
      have hwires : ∀ id k, ⟨id, k, x.output.register⟩ ∈ ng.wires g options ↔
          id = x.source ∧ k = x.slot :=
        fun _ _ => hrepresents.mem_wires_iff_of_export hc.fits hx
      have hunowned : x.output.register ∉ Surface.registers p.inputs := by
        intro hown
        exact hc.not_mem_wires hrepresents hown (mem_wires.2 (Or.inr ⟨x, hx, rfl⟩)) rfl
      have hfind : s.find? x.output.register = Graph.returned? h x.source x.slot := by
        rw [hs, hothers _ hunowned, Option.or_none, Graph.returned?]
        refine congrArg (fun f => List.findSome? f h) (funext fun e => ?_)
        simp only [hwires]
        rw [lastWhere_eq_lastFrom]
        by_cases hid : e.1 = x.source
        · simpa [hid] using lastFrom_add_eq 0 x.slot e.2
        · rw [if_neg hid]
          exact lastFrom_eq_none 0 (by simp [hid])
      have hrest := ih hxs
      cases hvalue : Graph.returned? h x.source x.slot with
      | none => simp [Artifact.readOutputs, Graph.collect, hfind, hvalue]
      | some value => simp [Artifact.readOutputs, Graph.collect, hfind, hvalue, hrest]

end

end Plan.NodeGraph

namespace Plan

/-- Where no step declares a name twice, a compiled graph that is run with parameters for some of
its inputs does what the graph does when its vertices are evaluated in the order of the schedule.
The inputs and the outputs of the compiled graph have the names of the graph. -/
theorem process_eq_evaluate (start : Register) (catalog : Catalog) (g : Graph)
    (options : ExportOptions) (p : Plan) (h : compileFrom start catalog g options = .ok p)
    (hnames : ∀ v ∈ g.vertices catalog, v.step.schema.names.Nodup) :
    (g.vertices catalog).map Vertex.saved = g.nodes ∧
      p.inputs.keys = g.hiddenNames catalog ++ g.inputNames catalog ∧
      p.outputs.map ExportedOutput.name = g.outputNames catalog options ∧
      ∃ order, order.map Vertex.id = p.stages.map Stage.node ∧ g.IsTopological catalog order ∧
        ∀ (a : Artifact) (params : Params), a.plan = p →
          (∀ x ∈ params.keys, x ∈ p.inputs.keys) →
            a.process params = g.evaluate catalog options params order := by
  obtain ⟨ng, order, hcreate, hrepresents, hc⟩ := compiles_of_compileFrom_eq_ok h
  obtain ⟨-, hknown, -⟩ := createNodes_isOk_iff.1 ⟨ng, hcreate⟩
  obtain ⟨hids, htopological, -⟩ := hc.exists_isTopological hrepresents
  have hexports := @NodeGraph.Represents.map_exports catalog g ng options hrepresents
  refine ⟨(Graph.map_saved_verticesFrom hknown).1,
    hc.keys_inputs hrepresents hnames, ?_, _, hids, htopological, ?_⟩
  · have hlength : (g.outputNames catalog options).length ≤
        ((g.exportedOutputs catalog options).map fun e => (e.1, e.2.1)).length := by
      rw [Graph.outputNames, length_exportNames, List.length_map, List.length_map]
    rw [hc.outputs, List.map_map, ← List.map_fst_zip hlength, ← hexports, List.map_map]
    rfl
  rintro a params rfl hparams
  obtain ⟨init, hseed, hinit, hothers⟩ := hc.exists_seed hrepresents hparams
  have hvs : ∀ v ∈ pick (g.arranged catalog) order, v ∈ g.vertices catalog :=
    fun v hv => htopological.perm.mem_iff.1 hv
  have hns : ∀ n ∈ pick ng.nodes order, n ∈ ng.nodes :=
    fun n hn => hc.pick_nodes_perm.mem_iff.1 hn
  refine Run.Matches.eq ?_
  rw [Artifact.process, hseed, Run.ofExcept_ok, pure_bind, Graph.evaluate, hc.stages_eq]
  refine Run.Matches.bind (hc.matches_processStages hrepresents hnames hinit hothers
    (Recorded.nil _ init) (forall₂_pick hrepresents.makes order) hvs hns) ?_
  rintro ⟨s, ui⟩ ⟨history, ui'⟩ ⟨hs, rfl⟩
  have hread := hc.readOutputs_eq hrepresents hothers hs fun x hx => hx
  simp only
  rw [hc.outputs, hread, hexports]
  exact Run.Matches.refl _

/-- Parameters for the first and the third relay. -/
def relayParams : Params := .ofList [("value", .string "first"), ("value_2", .string "third")]

theorem relays_process_eq_evaluate :
    ∃ p, compileFrom .first relayCatalog relayGraph .default = .ok p ∧
      (∀ v ∈ relayGraph.vertices relayCatalog, v.step.schema.names.Nodup) ∧
      (∀ x ∈ relayParams.keys, x ∈ p.inputs.keys) ∧
      (∃ order, order.map Vertex.id = p.stages.map Stage.node ∧
        (Artifact.ofPlan "relays" p).process relayParams =
          relayGraph.evaluate relayCatalog .default relayParams order) ∧
      (Artifact.ofPlan "relays" p).process relayParams =
        pure ⟨[.string "first", .string "third"], .empty⟩ := by
  have hnames : ∀ v ∈ relayGraph.vertices relayCatalog, v.step.schema.names.Nodup := by decide
  obtain ⟨-, -, -, order, hids, -, hprocess⟩ :=
    process_eq_evaluate .first relayCatalog relayGraph .default _ rfl hnames
  have hparams : ∀ x ∈ relayParams.keys, x ∈ ["context", "value", "value_2"] := by decide
  exact ⟨_, rfl, hnames, hparams, ⟨order, hids, hprocess _ relayParams rfl hparams⟩, rfl⟩

end Plan

end StepGraph
