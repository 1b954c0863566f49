import StepGraph.Proofs.Comparison.Alike

/-!
# Registers in the same place

If two graphs list the same nodes in another order, the inputs of their nodes get other registers,
and which input declares a shared hidden input first may change. `NodeGraph.Paired` relates the
registers of the inputs in the same place of the node with the same id, and those of the hidden
inputs of the same name. Where the vertices by their ranks are the same, the nodes mirror each other
under this relation.
-/

namespace StepGraph.Plan.NodeGraph

/-- The registers belong to inputs in the same place of nodes with the same id, or to hidden inputs
of the same name. -/
inductive Paired (ng ng' : NodeGraph) : Register → Register → Prop
  | feed {n n' : Node} {k : Nat} {i i' : Input} (hn : n ∈ ng.nodes) (hn' : n' ∈ ng'.nodes)
    (hid : n.id = n'.id) (hi : n.feeds[k]? = some i) (hi' : n'.feeds[k]? = some i') :
    Paired ng ng' i.register i'.register
  | hidden {x : String} {i i' : Input} (hi : ng.hidden.find? x = some i)
    (hi' : ng'.hidden.find? x = some i') : Paired ng ng' i.register i'.register

variable {catalog : Catalog} {g g' : Graph} {ng ng' : NodeGraph} {n n' m m' : Node} {i i' j : Input}
  {r r' : Register} {x : String}

theorem Paired.symm (h : Paired ng ng' r r') : Paired ng' ng r' r := by
  cases h with
  | feed hn hn' hid hi hi' => exact .feed hn' hn hid.symm hi' hi
  | hidden hi hi' => exact .hidden hi' hi

namespace Represents

variable (h : ng.Represents catalog g)

include h

theorem eq_of_id_eq (hn : n ∈ ng.nodes) (hm : m ∈ ng.nodes) (hid : n.id = m.id) : n = m :=
  List.inj_on_of_nodup_map h.nodup_ids hn hm hid

/-- The register of an input tells in which place of which node it is. -/
theorem place_eq_of_register_eq (hn : n ∈ ng.nodes) (hm : m ∈ ng.nodes) {k l : Nat}
    (hi : n.feeds[k]? = some i) (hj : m.feeds[l]? = some j) (heq : i.register = j.register) :
    n = m ∧ k = l := by
  obtain ⟨rfl, rfl⟩ := h.eq_of_register_eq hn hm (List.mem_of_getElem? hi)
    (List.mem_of_getElem? hj) heq
  have hsub : n.feeds.Sublist ng.ownedInputs :=
    (List.sublist_flatten_of_mem (List.mem_map_of_mem hn)).trans (List.sublist_append_left _ _)
  have hnodup : n.feeds.Nodup := (h.inputs.2.1.sublist (hsub.map _)).of_map
  have hlt := (List.getElem?_eq_some_iff.1 hi).1
  exact ⟨rfl, (List.getElem?_inj hlt hnodup).1 (hi.trans hj.symm)⟩

/-- There is a hidden input for every name that a step declares as hidden. -/
theorem exists_find?_iff : (∃ i, ng.hidden.find? x = some i) ↔
    ∃ v ∈ g.vertices catalog, x ∈ v.step.schema.hidden.keys := by
  rw [← OrderedMap.mem_keys_iff, h.keys_hidden, Graph.hiddenNames, List.mem_eraseDups,
    List.mem_flatMap]

end Represents

theorem Paired.right_unique (h : ng.Represents catalog g) (h' : ng'.Represents catalog g') :
    Relator.RightUnique (Paired ng ng') := by
  intro r r₁ r₂ h₁ h₂
  cases h₁ with
  | feed hn hn' hid hi hi' =>
      generalize hr : Input.register _ = r at h₂
      cases h₂ with
      | feed hm hm' hmid hj hj' =>
          obtain ⟨rfl, rfl⟩ := h.place_eq_of_register_eq hn hm hi hj hr
          obtain rfl := h'.eq_of_id_eq hn' hm' (hid.symm.trans hmid)
          rw [Option.some.inj (hi'.symm.trans hj')]
      | hidden hj hj' =>
          exact absurd hr (h.register_ne hn (List.mem_of_getElem? hi)
            (List.mem_map_of_mem (OrderedMap.find?_eq_some_iff.1 hj)))
  | hidden hi hi' =>
      generalize hr : Input.register _ = r at h₂
      cases h₂ with
      | feed hm hm' hmid hj hj' =>
          exact absurd hr.symm (h.register_ne hm (List.mem_of_getElem? hj)
            (List.mem_map_of_mem (OrderedMap.find?_eq_some_iff.1 hi)))
      | hidden hj hj' =>
          obtain rfl := h.name_eq_of_register_eq hi hj hr
          rw [Option.some.inj (hi'.symm.trans hj')]

theorem Paired.lt_next (h : ng.Represents catalog g) (hr : Paired ng ng' r r') :
    r.index < ng.next.index := by
  cases hr with
  | feed hn _ _ hi _ =>
      exact h.inputs.2.2 _ (mem_ownedInputs_of_feed hn (List.mem_of_getElem? hi))
  | hidden hi _ => exact h.inputs.2.2 _ (mem_ownedInputs_of_find? hi)

variable (h : ng.Represents catalog g) (h' : ng'.Represents catalog g')
  (halike : g.Alike catalog g')

include h h' halike

theorem rel_hidden_of_alike (x : String) :
    Option.Rel (fun i i' => i.typeTag = i'.typeTag ∧ Paired ng ng' i.register i'.register)
      (ng.hidden.find? x) (ng'.hidden.find? x) := by
  -- both have the type that some step declares for the name
  have hpaired : ∀ {v v' : Vertex} {i i' : Input}, v ∈ g.vertices catalog →
      v' ∈ g'.vertices catalog → v.Same v' → x ∈ v.step.schema.hidden.keys →
      ng.hidden.find? x = some i → ng'.hidden.find? x = some i' →
      i.typeTag = i'.typeTag ∧ Paired ng ng' i.register i'.register := by
    intro v v' i i' hv hv' hsame hx hi hi'
    refine ⟨?_, Paired.hidden hi hi'⟩
    obtain ⟨spec, hspec⟩ := OrderedMap.mem_keys_iff.1 hx
    have he := OrderedMap.find?_eq_some_iff.1 hspec
    obtain ⟨j, hj, htype⟩ := h.agrees v hv _ he
    obtain ⟨j', hj', htype'⟩ := h'.agrees v' hv' _ (hsame.step ▸ he)
    rw [Option.some.inj (hi.symm.trans hj), Option.some.inj (hi'.symm.trans hj'), htype, htype']
  refine optionRel_iff.2 ⟨fun i hi => ?_, fun i' hi' => ?_⟩
  · obtain ⟨v, hv, hx⟩ := h.exists_find?_iff.1 ⟨i, hi⟩
    obtain ⟨v', hv', hsame⟩ := halike.exists_same hv
    obtain ⟨i', hi'⟩ := h'.exists_find?_iff.2 ⟨v', hv', hsame.step ▸ hx⟩
    exact ⟨i', hi', hpaired hv hv' hsame hx hi hi'⟩
  · obtain ⟨v', hv', hx⟩ := h'.exists_find?_iff.1 ⟨i', hi'⟩
    obtain ⟨v, hv, hsame⟩ := halike.symm.exists_same hv'
    have hx' := hsame.step ▸ hx
    obtain ⟨i, hi⟩ := h.exists_find?_iff.2 ⟨v, hv, hx'⟩
    exact ⟨i, hi, hpaired hv hv' hsame.symm hx' hi hi'⟩

/-- The nodes of graphs that are alike mirror each other. -/
theorem mirrors_of_alike : ng.Mirrors (Paired ng ng') ng' where
  nodes := by
    have hlength := h.makes.length_eq
    have hlength' := h'.makes.length_eq
    refine List.forall₂_iff_get.2 ⟨by rw [← hlength, ← hlength', halike.arranged.length_eq], ?_⟩
    intro k hk hk'
    obtain ⟨start, hmakes⟩ := h.makes.get (hlength ▸ hk) hk
    obtain ⟨start', hmakes'⟩ := h'.makes.get (hlength' ▸ hk') hk'
    have hsame := halike.arranged.get (hlength ▸ hk) (hlength' ▸ hk')
    refine hmakes.mirrors hmakes' hsame ?_ ?_
    · intro l i i' hi hi'
      refine Paired.feed (List.get_mem ..) (List.get_mem ..) ?_ hi hi'
      rw [hmakes.id, hmakes'.id, hsame.id]
    · intro e he
      obtain ⟨i, hi, -⟩ := h.agrees _ ((g.arranged_perm catalog).mem_iff.1 (List.get_mem ..)) e he
      obtain ⟨i', hi', -, hpaired⟩ :=
        (optionRel_iff.1 (rel_hidden_of_alike h h' halike e.1)).1 i hi
      rwa [hiddenRegister_of_find? hi, hiddenRegister_of_find? hi']
  hidden := rel_hidden_of_alike h h' halike
  unique := ⟨fun _ _ _ hr hr' => Paired.right_unique h' h hr.symm hr'.symm,
    Paired.right_unique h h'⟩
  below := fun _ _ hr => ⟨hr.lt_next h, hr.symm.lt_next h'⟩

omit h h'

/-- As many registers are given away. -/
theorem shifted_next_of_alike {start start' : Register}
    (hcreate : createNodes catalog start g.nodes = .ok ng)
    (hcreate' : createNodes catalog start' g'.nodes = .ok ng') :
    Register.Shifted start start' ng.next ng'.next := by
  have hvisible : ((g.vertices catalog).flatMap fun v => v.step.schema.visible).length =
      ((g'.vertices catalog).flatMap fun v => v.step.schema.visible).length := by
    have harranged : List.Forall₂ Eq ((g.arranged catalog).flatMap fun v => v.step.schema.visible)
        ((g'.arranged catalog).flatMap fun v => v.step.schema.visible) := by
      refine List.rel_flatMap halike.arranged fun v v' hv => ?_
      rw [List.forall₂_eq_eq_eq, hv.step]
    rw [← ((g.arranged_perm catalog).flatMap_right _).length_eq, harranged.length_eq]
    exact ((g'.arranged_perm catalog).flatMap_right _).length_eq
  have hhidden := (mirrors_of_alike (createNodes_eq_ok hcreate) (createNodes_eq_ok hcreate')
    halike).keys_perm.length_eq
  have hnext := next_of_createNodes hcreate
  have hnext' := next_of_createNodes hcreate'
  rw [← hvisible, ← hhidden] at hnext'
  exact ⟨_, hnext, hnext'⟩

end StepGraph.Plan.NodeGraph
