import StepGraph.Proofs.Comparison.Shift
import StepGraph.Proofs.Dataflow.Naming
import StepGraph.Proofs.WellFormed

/-!
# Graphs that are alike

Two graphs are alike if they have the same nodes and links, listed in whatever order, and the same
vertices by their ranks. They are well-formed together, so that both are compiled or none, and they
export the same outputs under the same names.
-/

namespace StepGraph

open Plan

variable {catalog : Catalog} {g g' : Graph} {v v' : Vertex}

namespace Vertex.Same

theorem symm (h : v.Same v') : v'.Same v := ⟨h.id.symm, h.saved.symm, h.step.symm⟩

theorem slotNames (h : v.Same v') : v.slotNames = v'.slotNames := by
  rw [Vertex.slotNames, Vertex.slotNames, h.saved]

theorem slot? (h : v.Same v') (k : Nat) : v.slot? k = v'.slot? k := by
  rw [Vertex.slot?, Vertex.slot?, h.slotNames, h.step]

end Vertex.Same

namespace Graph

/-- If the vertices and links of a graph are there in a well-formed one as well, and what its links
join is there in the graph itself, it is well-formed too. -/
theorem WellFormed.of_same (h : g.WellFormed catalog) (hnodup : g'.nodeIds.Nodup)
    (hknown : ∀ n ∈ g'.nodes, ∃ step, catalog n.type = some step)
    (hsame : ∀ v ∈ g'.vertices catalog, ∃ w ∈ g.vertices catalog, v.Same w)
    (hlinks : ∀ l ∈ g'.links, l ∈ g.links ∧ ∀ v ∈ g.vertices catalog,
      v.id = l.fromNode ∨ v.id = l.toNode → ∃ w ∈ g'.vertices catalog, v.Same w) :
    g'.WellFormed catalog where
  nodup := hnodup
  known := hknown
  hidden := by
    intro v hv w hw e he f hf
    obtain ⟨v', hv', hvsame⟩ := hsame v hv
    obtain ⟨w', hw', hwsame⟩ := hsame w hw
    rw [hvsame.step] at he
    rw [hwsame.step] at hf
    exact h.hidden v' hv' w' hw' e he f hf
  slots := by
    intro v hv
    obtain ⟨v', hv', hvsame⟩ := hsame v hv
    rw [hvsame.slotNames, hvsame.step]
    exact h.slots v' hv'
  links := by
    intro l hl
    obtain ⟨hlink, hends⟩ := hlinks l hl
    obtain ⟨v, hv, w, hw, hvid, hwid, hslot, hout, htype⟩ := h.links l hlink
    obtain ⟨v', hv', hvsame⟩ := hends v hv (Or.inl hvid)
    obtain ⟨w', hw', hwsame⟩ := hends w hw (Or.inr hwid)
    refine ⟨v', hv', w', hw', hvsame.id ▸ hvid, hwsame.id ▸ hwid, ?_, ?_, ?_⟩
    · rwa [← hwsame.slotNames]
    · rwa [← hvsame.step]
    · rwa [← hwsame.slot?, ← hvsame.step]
  acyclic := by
    have hreads : g'.ReadsFrom ≤ g.ReadsFrom := by
      rintro id source ⟨l, hl, hto, hfrom⟩
      exact ⟨l, (hlinks l hl).1, hto, hfrom⟩
    exact fun id hcycle => h.acyclic id (Relation.TransGen.mono hreads id id hcycle)

/-- The same nodes and links, and the same vertices by their ranks. -/
structure Alike (catalog : Catalog) (g g' : Graph) : Prop where
  nodes : g.nodes.Perm g'.nodes
  ids : g.nodeIds.Perm g'.nodeIds
  arranged : List.Forall₂ Vertex.Same (g.arranged catalog) (g'.arranged catalog)
  links : ∀ l, l ∈ g.links ↔ l ∈ g'.links

/-- Only the order of the links may differ. -/
theorem alike_of_links_perm (hnodes : g.nodes = g'.nodes) (hlinks : g.links.Perm g'.links) :
    g.Alike catalog g' where
  nodes := List.Perm.of_eq hnodes
  ids := by rw [nodeIds, nodeIds, hnodes]
  arranged := by
    rw [Graph.arranged, Graph.arranged, vertices, vertices, hnodes]
    exact List.forall₂_same.2 fun v _ => Vertex.Same.refl v
  links := fun _ => hlinks.mem_iff

namespace Alike

variable (h : g.Alike catalog g')

include h

theorem symm : g'.Alike catalog g where
  nodes := h.nodes.symm
  ids := h.ids.symm
  arranged := h.arranged.flip.imp fun _ _ hv => hv.symm
  links := fun l => (h.links l).symm

theorem exists_same (hv : v ∈ g.vertices catalog) : ∃ v' ∈ g'.vertices catalog, v.Same v' := by
  obtain ⟨v', hv', hsame⟩ :=
    exists_of_mem_forall₂ h.arranged ((g.arranged_perm catalog).mem_iff.2 hv)
  exact ⟨v', (g'.arranged_perm catalog).mem_iff.1 hv', hsame⟩

theorem wellFormed (hg : g.WellFormed catalog) : g'.WellFormed catalog := by
  refine hg.of_same (h.ids.nodup_iff.1 hg.nodup) (fun n hn => hg.known n (h.nodes.mem_iff.2 hn))
    (fun v hv => h.symm.exists_same hv) fun l hl => ⟨(h.links l).2 hl, ?_⟩
  exact fun v hv _ => h.exists_same hv

/-- Both graphs are compiled or none, whichever outputs are exported and wherever the registers
start. -/
theorem compileFrom_isOk_iff (start start' : Register) (options options' : ExportOptions) :
    (∃ p, compileFrom start catalog g options = .ok p) ↔
      ∃ p, compileFrom start' catalog g' options' = .ok p := by
  rw [Plan.compileFrom_isOk_iff, Plan.compileFrom_isOk_iff, ← wellFormed_iff, ← wellFormed_iff]
  exact ⟨h.wellFormed, h.symm.wellFormed⟩

theorem exportedOutputs (options : ExportOptions) :
    g.exportedOutputs catalog options = g'.exportedOutputs catalog options := by
  have hexported : g.isExported = g'.isExported := by
    funext options id k name
    simp only [isExported, h.links]
  rw [Graph.exportedOutputs, Graph.exportedOutputs, hexported, ← List.forall₂_eq_eq_eq]
  refine List.rel_flatMap h.arranged fun v v' hv => ?_
  rw [List.forall₂_eq_eq_eq, hv.id, hv.step]

/-- The same outputs are exported under the same names. -/
theorem map_exports {ng ng' : NodeGraph} (hng : ng.Represents catalog g)
    (hng' : ng'.Represents catalog g') (options : ExportOptions) :
    (ng.exports g options).map (fun x => (x.output.name, x.source, x.slot)) =
      (ng'.exports g' options).map fun x => (x.output.name, x.source, x.slot) := by
  rw [hng.map_exports, hng'.map_exports, outputNames, outputNames, h.exportedOutputs]

end Alike

end Graph

namespace Plan.NodeGraph.Mirrors

variable {B : Register → Register → Prop} {ng ng' : NodeGraph} {options options' : ExportOptions}
  {order order' : List Nat} {p p' : Plan} (m : ng.Mirrors B ng') (h : ng.Represents catalog g)
  (h' : ng'.Represents catalog g') (halike : g.Alike catalog g')

include m h h' halike

/-- The inputs of the surface are the same if the hidden inputs are. -/
theorem entries_inputs {R : Register → Register → Prop} (hR : ∀ r r', B r r' → R r r')
    (hhidden : SameEntries (Input.Mirrors R) ng.hidden.entries ng'.hidden.entries)
    (hc : ng.Compiles g options order p) (hc' : ng'.Compiles g' options' order' p') :
    SameEntries (Input.Mirrors R) p.inputs.entries p'.inputs.entries := by
  rw [hc.inputs, hc'.inputs, ← m.names_eq h h' hc.fits halike.links]
  refine List.rel_append hhidden (SameEntries.zip _ ?_)
  exact (m.freeInputs h h' hc.fits halike.links).imp fun _ _ hi => hi.imp (hR _ _)

/-- The same outputs are exported, and their registers lie equally far behind the first ones if the
next free ones do. -/
theorem outputs_shifted {start start' : Register}
    (hnext : Register.Shifted start start' ng.next ng'.next) (hc : ng.Compiles g options order p)
    (hc' : ng'.Compiles g' options order' p') :
    List.Forall₂ (fun o o' => o.name = o'.name ∧ o.typeTag = o'.typeTag ∧
      Register.Shifted start start' o.register o'.register) p.outputs p'.outputs := by
  refine (m.outputs h' hc hc' (halike.map_exports h h' options)).imp fun o o' ho => ?_
  exact ⟨ho.1, ho.2.1, hnext.trans ho.2.2.2⟩

/-- The plans of graphs that are alike do the same. -/
theorem runs_eq (hc : ng.Compiles g options order p) (hc' : ng'.Compiles g' options order' p')
    {a a' : Artifact} (ha : a.plan = p) (ha' : a'.plan = p') (params : Params) :
    a.process params = a'.process params ∧ a.validate params = a'.validate params ∧
      a.fingerprint params = a'.fingerprint params := by
  subst ha ha'
  have houtputs := m.outputs h' hc hc' (halike.map_exports h h' options)
  exact Artifact.runs_eq_of_plan_mirrors (m.plan h h' halike.links hc hc')
    (houtputs.imp fun _ _ ho => ⟨ho.1, ho.2.2.1⟩) params

end Plan.NodeGraph.Mirrors

end StepGraph
