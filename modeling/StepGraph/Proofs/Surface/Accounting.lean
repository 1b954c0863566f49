import StepGraph.Proofs.Dataflow.Naming

/-!
# What an output writes to

When the links are wired and the outputs are exported, an output has a consumer for each link that
leaves it, in the order of the links, namely the register of the slot that the link enters, and if
it is exported one more, which is new. The exported outputs stand in the order of the nodes and of
their outputs, each with the type of its output and the new register. Nothing else of the nodes has
changed. `Accounted` says so of the outcome of `exportOutputs`.
-/

namespace StepGraph.Plan

/-- The outputs of nodes, each with the id of its node and its number there. -/
def outputPlaces (ns : List Node) : List (NodeId × Nat × Output) :=
  ns.flatMap fun n => n.outputs.zipIdx.map fun e => (n.id, e.2, e.1)

/-- The registers are those of the slots that the links of an output enter, link by link. -/
def EnteredFrom (ns : List Node) (links : List Graph.Link) (id : NodeId) (k : Nat)
    (rs : List Register) : Prop :=
  List.Forall₂ (Targets ns) (links.filter fun l => l.fromNode = id ∧ l.fromSlot.toNat = k) rs

/-- The output of a place is exported. -/
def ExportedAt (g : Graph) (options : ExportOptions) (s : NodeId × Nat × Output) : Prop :=
  g.isExported options s.1 s.2.1 s.2.2.name = true

instance (g : Graph) (options : ExportOptions) : DecidablePred (ExportedAt g options) :=
  fun _ => inferInstanceAs (Decidable (_ = true))

/-- The nodes of a graph with their consumers, and the exported outputs. -/
structure Accounted (g : Graph) (options : ExportOptions) (created : NodeGraph) (ns : List Node)
    (xs : List ExportedOutput) : Prop where
  /-- Apart from consumers the nodes are as they were made. -/
  nodes : ns.map (fun n => { n with outputs := [] }) =
    created.nodes.map fun n => { n with outputs := [] }
  outputs : (outputPlaces ns).map (fun s => (s.1, s.2.1, s.2.2.name, s.2.2.typeTag)) =
    (outputPlaces created.nodes).map fun s => (s.1, s.2.1, s.2.2.name, s.2.2.typeTag)
  internal : ∀ s ∈ outputPlaces ns, ¬ ExportedAt g options s →
    EnteredFrom created.nodes g.links s.1 s.2.1 s.2.2.consumers
  exported : List.Forall₂ (fun s x => x.typeTag = s.2.2.typeTag ∧
      ∃ rs, EnteredFrom created.nodes g.links s.1 s.2.1 rs ∧ s.2.2.consumers = rs ++ [x.register])
    ((outputPlaces ns).filter (ExportedAt g options)) xs
  /-- No register is exported twice, and none that an input has. -/
  fresh : (xs.map ExportedOutput.register).Nodup ∧
    ∀ x ∈ xs, ∀ i ∈ created.ownedInputs, i.register ≠ x.register

variable {options : ExportOptions} {ns : List Node} {ws : List Wire}

/-! ## Places -/

theorem selectedFrom_eq_filter (id : NodeId) (k : Nat) (os : List Output) :
    selectedFrom options id k os =
      ((os.zipIdx k).map fun e => (id, e.2, e.1)).filter fun s => isExported options s.1 s.2.2 := by
  induction os generalizing k with
  | nil => rfl
  | cons o os ih => simp only [selectedFrom, List.zipIdx_cons, List.map_cons, List.filter_cons, ih]

/-- The outputs to export are outputs, in the same order. -/
theorem selectedOutputs_eq_filter (options : ExportOptions) (ns : List Node) :
    selectedOutputs options ns =
      (outputPlaces ns).filter fun s => isExported options s.1 s.2.2 := by
  rw [selectedOutputs, outputPlaces, List.filter_flatMap]
  exact List.flatMap_congr fun n _ => selectedFrom_eq_filter n.id 0 n.outputs

theorem mem_outputPlaces {s : NodeId × Nat × Output} :
    s ∈ outputPlaces ns ↔ ∃ n ∈ ns, n.id = s.1 ∧ n.outputs[s.2.1]? = some s.2.2 := by
  obtain ⟨id, k, o⟩ := s
  simp only [outputPlaces, List.mem_flatMap, List.mem_map, Prod.mk.injEq, Prod.exists,
    List.mem_zipIdx_iff_getElem?]
  constructor
  · rintro ⟨n, hn, _, _, ho, rfl, rfl, rfl⟩
    exact ⟨n, hn, rfl, ho⟩
  · rintro ⟨n, hn, rfl, ho⟩
    exact ⟨n, hn, o, k, ho, rfl, rfl, rfl⟩

/-- Wires change the consumers of the outputs they leave. -/
theorem outputPlaces_map_attach :
    outputPlaces (ns.map (Node.attach ws)) = (outputPlaces ns).map fun s =>
      (s.1, s.2.1, { s.2.2 with consumers := s.2.2.consumers ++ wiredFrom ws s.1 s.2.1 }) := by
  rw [outputPlaces, outputPlaces, List.flatMap_map, List.map_flatMap]
  refine List.flatMap_congr fun n _ => List.ext_getElem? fun k => ?_
  simp only [List.getElem?_map, List.getElem?_zipIdx, getElem?_outputs_attach, Option.map_map,
    Function.comp_def, Nat.zero_add, id_attach]

/-- No place is listed twice. -/
theorem nodup_outputPlaces (h : (ns.map Node.id).Nodup) :
    ((outputPlaces ns).map fun s => (s.1, s.2.1)).Nodup := by
  rw [outputPlaces, List.map_flatMap]
  refine List.nodup_flatMap.2 ⟨fun n _ => ?_, (List.pairwise_map.1 h).imp ?_⟩
  · have hslots : (n.outputs.zipIdx.map Prod.snd).Nodup := by
      rw [List.zipIdx_map_snd]
      exact List.nodup_range'
    have hpairs := hslots.map (f := fun k => (n.id, k)) fun j k hjk => congrArg Prod.snd hjk
    rw [List.map_map] at hpairs ⊢
    exact hpairs
  · intro n m hne s hsn hsm
    simp only [List.map_map, List.mem_map, Function.comp_apply] at hsn hsm
    obtain ⟨e, -, rfl⟩ := hsn
    obtain ⟨f, -, hfe⟩ := hsm
    exact hne (congrArg Prod.fst hfe).symm

/-! ## The consumers that exports add -/

/-- The one wire that leaves the place of an export is that of the export. -/
theorem wiredFrom_map_wire {xs : List Export} (h : (xs.map fun x => (x.source, x.slot)).Nodup)
    {x : Export} (hx : x ∈ xs) :
    wiredFrom (xs.map Export.wire) x.source x.slot = [x.output.register] := by
  induction xs with
  | nil => simp at hx
  | cons y xs ih =>
      obtain ⟨hnew, hnodup⟩ := List.nodup_cons.1 h
      rw [List.map_cons, wiredFrom_cons]
      rcases List.mem_cons.1 hx with rfl | hx
      · have hnone : wiredFrom (xs.map Export.wire) x.source x.slot = [] := by
          rw [List.eq_nil_iff_forall_not_mem]
          intro r hr
          obtain ⟨z, hz, hwire⟩ := List.mem_map.1 (mem_wiredFrom.1 hr)
          refine hnew (List.mem_map.2 ⟨z, hz, ?_⟩)
          exact Prod.ext (congrArg Wire.source hwire) (congrArg Wire.slot hwire)
        rw [if_pos ⟨rfl, rfl⟩, hnone]
        rfl
      · rw [if_neg, ih hnodup hx]
        rintro ⟨hsource, hslot⟩
        exact hnew (List.mem_map.2 ⟨x, hx, Prod.ext hsource.symm hslot.symm⟩)

namespace NodeGraph

variable {catalog : Catalog} {g : Graph} {ng : NodeGraph}

theorem Represents.enteredFrom (h : ng.Represents catalog g)
    (hfits : ∀ l ∈ g.links, Fits ng.nodes l) (id : NodeId) (k : Nat) :
    EnteredFrom ng.nodes g.links id k (wiredFrom (ng.linkWires g) id k) := by
  have hregisters : wiredFrom (ng.linkWires g) id k =
      (g.links.filter fun l => l.fromNode = id ∧ l.fromSlot.toNat = k).map fun l =>
        (linkWire ng.nodes l).register := by
    rw [wiredFrom, linkWires, List.filter_map, List.map_map]
    rfl
  rw [EnteredFrom, hregisters, List.forall₂_map_right_iff, List.forall₂_same]
  intro l hl
  exact (h.register_linkWire_eq_iff_targets (hfits l (List.mem_filter.1 hl).1)).1 rfl

/-- The nodes once their links are wired. -/
def linkedNodes (ng : NodeGraph) (g : Graph) : List Node :=
  ng.nodes.map (Node.attach (ng.linkWires g))

theorem Represents.consumers_linkedNodes (h : ng.Represents catalog g)
    {s : NodeId × Nat × Output} (hs : s ∈ outputPlaces (ng.linkedNodes g)) :
    s.2.2.consumers = wiredFrom (ng.linkWires g) s.1 s.2.1 := by
  rw [linkedNodes, outputPlaces_map_attach] at hs
  obtain ⟨t, ht, rfl⟩ := List.mem_map.1 hs
  obtain ⟨n, hn, -, ho⟩ := mem_outputPlaces.1 ht
  rw [h.consumers_eq_nil hn (List.mem_of_getElem? ho), List.nil_append]

/-- Before outputs are exported, those that no link leaves have no consumers. -/
theorem Represents.isExported_iff (h : ng.Represents catalog g) {s : NodeId × Nat × Output}
    (hs : s ∈ outputPlaces (ng.linkedNodes g)) :
    isExported options s.1 s.2.2 = true ↔ ExportedAt g options s := by
  rw [ExportedAt, Graph.isExported, isExported, h.consumers_linkedNodes hs]
  cases options.allowed with
  | some keys => rfl
  | none => simp [wiredFrom, linkWires, linkWire, List.filter_eq_nil_iff]

theorem nodup_outputPlaces_linkedNodes (h : ng.Represents catalog g) :
    ((outputPlaces (ng.linkedNodes g)).map fun s => (s.1, s.2.1)).Nodup := by
  refine nodup_outputPlaces ?_
  rw [linkedNodes, map_id_map_attach]
  exact h.nodup_ids

theorem nodup_place_exports (h : ng.Represents catalog g) :
    ((ng.exports g options).map fun x => (x.source, x.slot)).Nodup := by
  have hplaces := congrArg (List.map fun e : NodeId × Nat × String => (e.1, e.2.1))
    (@map_exportsFrom options [] ng.next (selectedOutputs options (ng.linkedNodes g)))
  rw [List.map_map, List.map_map, selectedOutputs_eq_filter] at hplaces
  have hsub := List.filter_sublist (l := outputPlaces (ng.linkedNodes g))
    (p := fun s => isExported options s.1 s.2.2)
  rw [exports, exportsOf, ← linkedNodes, selectedOutputs_eq_filter]
  exact hplaces ▸ (nodup_outputPlaces_linkedNodes h).sublist (hsub.map _)

/-- The consumers that an output has besides those of links. -/
theorem Represents.wiredFrom_exports_eq_nil (h : ng.Represents catalog g)
    {s : NodeId × Nat × Output} (hs : s ∈ outputPlaces (ng.linkedNodes g))
    (hinternal : ¬ ExportedAt g options s) :
    wiredFrom ((ng.exports g options).map Export.wire) s.1 s.2.1 = [] := by
  refine Plan.wiredFrom_exports_eq_nil ?_
  rw [← linkedNodes, selectedOutputs_eq_filter]
  rintro t ht ⟨hid, hslot⟩
  obtain ⟨ht, hexported⟩ := List.mem_filter.1 ht
  obtain rfl := List.inj_on_of_nodup_map (nodup_outputPlaces_linkedNodes h) ht hs
    (Prod.ext hid hslot)
  exact hinternal ((h.isExported_iff hs).1 hexported)

theorem Represents.accounted (h : ng.Represents catalog g)
    (hfits : ∀ l ∈ g.links, Fits ng.nodes l) :
    Accounted g options ng
      ((ng.linkedNodes g).map (Node.attach ((ng.exports g options).map Export.wire)))
      ((ng.exports g options).map Export.output) := by
  constructor
  case nodes =>
    rw [linkedNodes, List.map_map, List.map_map]
    rfl
  case outputs =>
    rw [linkedNodes, outputPlaces_map_attach, outputPlaces_map_attach, List.map_map, List.map_map]
    rfl
  case internal =>
    rw [outputPlaces_map_attach]
    refine List.forall_mem_map.2 fun s hs hinternal => ?_
    have hnone := @Represents.wiredFrom_exports_eq_nil options catalog g ng h s hs hinternal
    simp only [hnone, List.append_nil, h.consumers_linkedNodes hs]
    exact h.enteredFrom hfits s.1 s.2.1
  case exported =>
    have hpairs := map_eq_map_iff_forall₂.1
      (@map_exportsFrom options [] ng.next (selectedOutputs options (ng.linkedNodes g))).symm
    have hselected : (outputPlaces (ng.linkedNodes g)).filter (ExportedAt g options) =
        selectedOutputs options (ng.linkedNodes g) := by
      rw [selectedOutputs_eq_filter]
      refine List.filter_congr fun s hs => ?_
      rw [Bool.eq_iff_iff, decide_eq_true_iff, h.isExported_iff hs]
    rw [outputPlaces_map_attach, List.filter_map, List.forall₂_map_left_iff,
      List.forall₂_map_right_iff]
    change List.Forall₂ _ ((outputPlaces (ng.linkedNodes g)).filter (ExportedAt g options)) _
    rw [hselected]
    refine List.forall₂_iff_zip.2 ⟨hpairs.length_eq, fun {s x} hsx => ?_⟩
    obtain ⟨hs, hx⟩ := List.of_mem_zip hsx
    obtain ⟨hid, hrest⟩ := Prod.mk.inj ((List.forall₂_iff_zip.1 hpairs).2 hsx)
    obtain ⟨hslot, htype⟩ := Prod.mk.inj hrest
    rw [← hselected] at hs
    have hwire := wiredFrom_map_wire (nodup_place_exports h) hx
    rw [← hid, ← hslot] at hwire
    refine ⟨htype.symm, _, h.enteredFrom hfits s.1 s.2.1, ?_⟩
    simp only [h.consumers_linkedNodes (List.mem_filter.1 hs).1]
    exact congrArg _ hwire
  case fresh =>
    refine ⟨?_, List.forall_mem_map.2 fun x hx i hi => h.register_ne_of_export hx hi⟩
    rw [List.map_map]
    exact nodup_register_exports

end NodeGraph

/-- Whatever is exported, every output of wired nodes ends up with the consumers that links and its
export give it. -/
theorem outputs_accounted (start : Register) (catalog : Catalog) (g : Graph)
    (options : ExportOptions) (created : NodeGraph) (wired : List Node) (wiring : Wiring)
    (hcreate : createNodes catalog start g.nodes = .ok created)
    (hconnect : connectLinks g.links created.nodes = .ok (wired, wiring)) :
    Accounted g options created (exportOutputs options created.next wired).1
      (exportOutputs options created.next wired).2.outputs := by
  have hrepresents := createNodes_eq_ok hcreate
  obtain ⟨hfits, hwired⟩ := wired_of_connectFrom hrepresents.nodup_ids hconnect
  obtain rfl : wired = created.linkedNodes g := hwired.nodes
  have hnodup : ((created.linkedNodes g).map Node.id).Nodup := by
    rw [NodeGraph.linkedNodes, map_id_map_attach]
    exact hrepresents.nodup_ids
  rw [exportOutputs_eq hnodup]
  exact hrepresents.accounted hfits

/-- Exports the output of the early relay, which has a link, and no other. -/
def earlyExported : ExportOptions := ⟨some ["early INT"], .empty⟩

theorem relays_accounted :
    ∃ created wired wiring, createNodes relayCatalog .first relayGraph.nodes = .ok created ∧
      connectLinks relayGraph.links created.nodes = .ok (wired, wiring) ∧
      Accounted relayGraph earlyExported created
        (exportOutputs earlyExported created.next wired).1
        (exportOutputs earlyExported created.next wired).2.outputs :=
  ⟨_, _, _, rfl, rfl, outputs_accounted .first relayCatalog relayGraph _ _ _ _ rfl rfl⟩

end StepGraph.Plan
