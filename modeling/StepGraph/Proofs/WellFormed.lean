import StepGraph.Proofs.Compilation

/-!
# The graphs that can be compiled

A graph is `WellFormed` for a catalog if its ids are distinct, its types are known, hidden inputs of
one name have one type, every node has the inputs that its slots name, every link joins an output to
a slot of the same type, and following links backwards never comes back to the node it started from.
All of it is said of the saved graph. Nothing of it depends on which outputs are exported.

These are the graphs that can be compiled. If all but the last of it holds, `Graph.Joined`, the
failure is a cycle, and it is a cycle in no other case.
-/

namespace StepGraph

open Plan

namespace Graph

/-- All that a graph needs to be compiled, but for the order of its nodes. -/
structure Joined (catalog : Catalog) (g : Graph) : Prop where
  nodup : g.nodeIds.Nodup
  known : ∀ n ∈ g.nodes, ∃ step, catalog n.type = some step
  hidden : ∀ v ∈ g.vertices catalog, ∀ w ∈ g.vertices catalog,
    ∀ e ∈ v.step.schema.hidden.entries, ∀ f ∈ w.step.schema.hidden.entries,
      e.1 = f.1 → e.2.typeTag = f.2.typeTag
  slots : ∀ v ∈ g.vertices catalog,
    v.slotNames.Subperm (v.step.schema.visible.map fun e => e.2.1)
  links : ∀ l ∈ g.links, ∃ v ∈ g.vertices catalog, ∃ w ∈ g.vertices catalog,
    v.id = l.fromNode ∧ w.id = l.toNode ∧
      l.toSlot.toNat < w.slotNames.length ∧ l.fromSlot.toNat < v.step.outputs.length ∧
      (w.slot? l.toSlot.toNat).map (fun e => e.2.2.typeTag) =
        v.step.outputs[l.fromSlot.toNat]?.map OutputSpec.typeTag

/-- The node has a link from the other one. -/
def ReadsFrom (g : Graph) (id source : NodeId) : Prop :=
  ∃ l ∈ g.links, l.toNode = id ∧ l.fromNode = source

/-- No node reads from itself, through others or not. -/
def Acyclic (g : Graph) : Prop := ∀ id, ¬ Relation.TransGen g.ReadsFrom id id

/-- All that a graph needs to be compiled. -/
structure WellFormed (catalog : Catalog) (g : Graph) : Prop extends Joined catalog g where
  acyclic : g.Acyclic

end Graph

namespace Plan

variable {start : Register} {catalog : Catalog} {g : Graph} {options : ExportOptions}

/-! ## Links between vertices -/

variable {hidden : InputMap} {vs : List Vertex} {ns : List Node}

/-- A link fits between the nodes of vertices as it does between the vertices. -/
theorem fits_iff_of_forall₂_makes
    (h : List.Forall₂ (fun v n => ∃ start, v.Makes hidden start n) vs ns) {l : Graph.Link} :
    Fits ns l ↔ ∃ v ∈ vs, ∃ w ∈ vs, v.id = l.fromNode ∧ w.id = l.toNode ∧
      l.toSlot.toNat < w.slotNames.length ∧ l.fromSlot.toNat < v.step.outputs.length ∧
      (w.slot? l.toSlot.toNat).map (fun e => e.2.2.typeTag) =
        v.step.outputs[l.fromSlot.toNat]?.map OutputSpec.typeTag := by
  constructor
  · rintro ⟨source, hsource, target, htarget, output, input, hsid, htid, hslot, hout, htype⟩
    obtain ⟨v, hv, _, hvmakes⟩ := exists_of_mem_forall₂ h.flip hsource
    obtain ⟨w, hw, _, hwmakes⟩ := exists_of_mem_forall₂ h.flip htarget
    refine ⟨v, hv, w, hw, ?_, ?_, ?_, ?_, ?_⟩
    · rw [← hvmakes.id, hsid]
    · rw [← hwmakes.id, htid]
    · rw [← hwmakes.length_slots]
      exact (List.getElem?_eq_some_iff.1 hslot).1
    · rw [← hvmakes.length_outputs]
      exact (List.getElem?_eq_some_iff.1 hout).1
    · rw [← hwmakes.map_typeTag_getElem?_slots, ← hvmakes.map_typeTag_getElem?_outputs, hslot,
        hout]
      exact congrArg some htype.symm
  · rintro ⟨v, hv, w, hw, hvid, hwid, hslot, hout, htype⟩
    obtain ⟨source, hsource, _, hvmakes⟩ := exists_of_mem_forall₂ h hv
    obtain ⟨target, htarget, _, hwmakes⟩ := exists_of_mem_forall₂ h hw
    rw [← hwmakes.length_slots] at hslot
    rw [← hvmakes.length_outputs] at hout
    rw [← hwmakes.map_typeTag_getElem?_slots, ← hvmakes.map_typeTag_getElem?_outputs,
      List.getElem?_eq_getElem hslot, List.getElem?_eq_getElem hout] at htype
    exact ⟨source, hsource, target, htarget, _, _, hvmakes.id.trans hvid, hwmakes.id.trans hwid,
      List.getElem?_eq_getElem hslot, List.getElem?_eq_getElem hout, (Option.some.inj htype).symm⟩

/-! ## Cycles -/

/-- Between nodes with distinct ids, positions that read from each other have ids that do, and the
other way round. -/
theorem transGen_linkedFrom_iff (hnodup : (ns.map Node.id).Nodup) (hfits : ∀ l ∈ g.links, Fits ns l)
    {id source : NodeId} :
    Relation.TransGen g.ReadsFrom id source ↔
      ∃ i d, ns[i]?.map Node.id = some id ∧ ns[d]?.map Node.id = some source ∧
        Relation.TransGen (LinkedFrom ns g.links) i d := by
  constructor
  · intro h
    have hstep : ∀ {a b}, g.ReadsFrom a b → ∃ i d, ns[i]?.map Node.id = some a ∧
        ns[d]?.map Node.id = some b ∧ LinkedFrom ns g.links i d := by
      rintro a b ⟨l, hl, rfl, rfl⟩
      obtain ⟨s, hs, t, ht, -, -, hsid, htid, -⟩ := hfits l hl
      obtain ⟨d, hd⟩ := List.mem_iff_getElem?.1 hs
      obtain ⟨i, hi⟩ := List.mem_iff_getElem?.1 ht
      have hdid : ns[d]?.map Node.id = some l.fromNode := by rw [hd, ← hsid, Option.map_some]
      have hiid : ns[i]?.map Node.id = some l.toNode := by rw [hi, ← htid, Option.map_some]
      exact ⟨i, d, hiid, hdid, l, hl, hdid, hiid⟩
    induction h with
    | single hr =>
        obtain ⟨i, d, hi, hd, hlinked⟩ := hstep hr
        exact ⟨i, d, hi, hd, Relation.TransGen.single hlinked⟩
    | tail _ hr ih =>
        obtain ⟨i, m, hi, hm, hpath⟩ := ih
        obtain ⟨m', d, hm', hd, hlinked⟩ := hstep hr
        obtain rfl := eq_of_getElem?_id hnodup hm hm'
        exact ⟨i, d, hi, hd, hpath.tail hlinked⟩
  · rintro ⟨i, d, hi, hd, h⟩
    induction h generalizing source with
    | single hr =>
        obtain ⟨l, hl, hfrom, hto⟩ := hr
        rw [hi] at hto
        rw [hd] at hfrom
        exact Relation.TransGen.single
          ⟨l, hl, (Option.some.inj hto).symm, (Option.some.inj hfrom).symm⟩
    | @tail m d _ hr ih =>
        obtain ⟨l, hl, hfrom, hto⟩ := hr
        rw [hd] at hfrom
        exact (ih hto).tail ⟨l, hl, rfl, (Option.some.inj hfrom).symm⟩

theorem acyclicLinks_iff (hnodup : (ns.map Node.id).Nodup) (hfits : ∀ l ∈ g.links, Fits ns l) :
    AcyclicLinks ns g.links ↔ g.Acyclic := by
  constructor
  · intro h id hcycle
    obtain ⟨i, d, hi, hd, hpath⟩ := (transGen_linkedFrom_iff hnodup hfits).1 hcycle
    obtain rfl := eq_of_getElem?_id hnodup hi hd
    obtain ⟨n, hn, -⟩ := Option.map_eq_some_iff.1 hi
    exact h i (List.getElem?_eq_some_iff.1 hn).1 hpath
  · intro h i hi hcycle
    have hid : ns[i]?.map Node.id = some ns[i].id := by rw [List.getElem?_eq_getElem hi]; rfl
    exact h _ ((transGen_linkedFrom_iff hnodup hfits).2 ⟨i, i, hid, hid, hcycle⟩)

/-! ## What is compiled -/

/-- The nodes can be made and all links fit exactly if the graph is joined. -/
theorem joined_iff :
    g.Joined catalog ↔
      ∃ ng, createNodes catalog start g.nodes = .ok ng ∧ ∀ l ∈ g.links, Fits ng.nodes l := by
  have hlinks : ∀ {ng : NodeGraph}, ng.Represents catalog g → ∀ {l}, Fits ng.nodes l ↔ _ :=
    fun hng => fits_iff_of_forall₂_makes hng.makes
  have hmem : ∀ v, v ∈ g.arranged catalog ↔ v ∈ g.vertices catalog :=
    fun v => (g.arranged_perm catalog).mem_iff
  simp only [hmem] at hlinks
  constructor
  · intro h
    have hhidden := consistent_hiddenDeclarations_iff.2 h.hidden
    obtain ⟨ng, hcreate⟩ : ∃ ng, createNodes catalog start g.nodes = .ok ng :=
      createNodes_isOk_iff.2
        ⟨h.nodup, h.known, Allotment.agreesWith_allotment_iff.2 hhidden, h.slots⟩
    refine ⟨ng, hcreate, fun l hl => ?_⟩
    exact (hlinks (createNodes_eq_ok hcreate)).2 (h.links l hl)
  · rintro ⟨ng, hcreate, hfits⟩
    obtain ⟨hnodup, hknown, hagrees, hslots⟩ := createNodes_isOk_iff.1 ⟨ng, hcreate⟩
    have hhidden := consistent_hiddenDeclarations_iff.1
      (Allotment.agreesWith_allotment_iff.1 hagrees)
    refine ⟨hnodup, hknown, hhidden, hslots, fun l hl => ?_⟩
    exact (hlinks (createNodes_eq_ok hcreate)).1 (hfits l hl)

theorem wellFormed_iff :
    g.WellFormed catalog ↔ ∃ ng, createNodes catalog start g.nodes = .ok ng ∧
      (∀ l ∈ g.links, Fits ng.nodes l) ∧ AcyclicLinks ng.nodes g.links := by
  have hacyclic : ∀ {ng}, createNodes catalog start g.nodes = .ok ng →
      (∀ l ∈ g.links, Fits ng.nodes l) → (AcyclicLinks ng.nodes g.links ↔ g.Acyclic) :=
    fun hcreate hfits => acyclicLinks_iff (createNodes_eq_ok hcreate).nodup_ids hfits
  constructor
  · rintro ⟨hjoined, h⟩
    obtain ⟨ng, hcreate, hfits⟩ := joined_iff.1 hjoined
    exact ⟨ng, hcreate, hfits, (hacyclic hcreate hfits).2 h⟩
  · rintro ⟨ng, hcreate, hfits, h⟩
    exact ⟨joined_iff.2 ⟨ng, hcreate, hfits⟩, (hacyclic hcreate hfits).1 h⟩

/-- Exactly the well-formed graphs are compiled, whichever outputs are exported and wherever the
registers start. A cycle is reported exactly if it is all that is wrong. -/
theorem compile_isOk_iff_wellFormed (start : Register) (catalog : Catalog) (g : Graph)
    (options : ExportOptions) :
    ((∃ p, compileFrom start catalog g options = .ok p) ↔ g.WellFormed catalog) ∧
      ((∃ ids, compileFrom start catalog g options = .error (.dependencyCycle ids)) ↔
        g.Joined catalog ∧ ¬ g.Acyclic) := by
  rw [compileFrom_isOk_iff, compileFrom_eq_cycle_iff]
  refine ⟨wellFormed_iff.symm, ?_⟩
  constructor
  · rintro ⟨ng, hcreate, hfits, h⟩
    have hnodup := (createNodes_eq_ok hcreate).nodup_ids
    exact ⟨joined_iff.2 ⟨ng, hcreate, hfits⟩, mt (acyclicLinks_iff hnodup hfits).2 h⟩
  · rintro ⟨hjoined, h⟩
    obtain ⟨ng, hcreate, hfits⟩ := joined_iff.1 hjoined
    have hnodup := (createNodes_eq_ok hcreate).nodup_ids
    exact ⟨ng, hcreate, hfits, mt (acyclicLinks_iff hnodup hfits).1 h⟩

end Plan

end StepGraph
