import StepGraph.Proofs.Comparison.Node

/-!
# Where the registers start

The nodes of a graph may take their registers from any first one on. If they are made twice, from
two first registers, they are the same but for their registers, which lie equally far behind the
first ones. So do the registers of the hidden inputs, and the next ones that are free.
-/

namespace StepGraph.Plan

variable {catalog : Catalog} {g : Graph} {ng ng' : NodeGraph} {start start' : Register}

/-! ## Allotments -/

namespace Allotment

/-- The hidden inputs are the same, and all registers lie equally far behind the first ones. -/
structure Shifted (start start' : Register) (a a' : Allotment) : Prop where
  hidden : SameEntries (Input.Mirrors (Register.Shifted start start')) a.hidden.entries
    a'.hidden.entries
  next : Register.Shifted start start' a.next a'.next

variable {a a' : Allotment}

theorem Shifted.share (h : a.Shifted start start' a') (name : String) (spec : InputSpec) :
    (a.share name spec).Shifted start start' (a'.share name spec) := by
  obtain ⟨hleft, hright⟩ := optionRel_iff.1 (h.hidden.rel_find? name)
  cases hname : a.hidden.find? name with
  | some i =>
      obtain ⟨i', hi', -⟩ := hleft i hname
      rwa [share_of_some hname, share_of_some hi']
  | none =>
      have hname' : a'.hidden.find? name = none := by
        refine Option.eq_none_iff_forall_ne_some.2 fun i' hi' => ?_
        obtain ⟨i, hi, -⟩ := hright i' hi'
        cases hname.symm.trans hi
      rw [share_of_none hname, share_of_none hname']
      exact ⟨h.hidden.insert name ⟨rfl, rfl, rfl, h.next⟩, h.next.advance 1⟩

theorem Shifted.shareAll (h : a.Shifted start start' a') (hs : List (String × InputSpec)) :
    (a.shareAll hs).Shifted start start' (a'.shareAll hs) := by
  induction hs generalizing a a' with
  | nil => exact h
  | cons e hs ih => exact ih (h.share e.1 e.2)

theorem Shifted.after (h : a.Shifted start start' a') (step : Step) :
    (a.after step).Shifted start start' (a'.after step) := by
  have hnext : Shifted start start' ⟨a.hidden, a.next.advance step.schema.visible.length⟩
      ⟨a'.hidden, a'.next.advance step.schema.visible.length⟩ :=
    ⟨h.hidden, h.next.advance _⟩
  exact hnext.shareAll step.schema.hidden.entries

theorem Shifted.allot (h : a.Shifted start start' a') (vs : List Vertex) :
    (a.allot vs).Shifted start start' (a'.allot vs) := by
  induction vs generalizing a a' with
  | nil => exact h
  | cons v vs ih => exact ih (h.after v.step)

end Allotment

/-! ## Nodes -/

/-- The nodes are made of one vertex, with registers from equally shifted ones on. -/
def MadeAlike (start start' : Register) (hidden hidden' : InputMap) (vs : List Vertex)
    (n n' : Node) : Prop :=
  ∃ v ∈ vs, ∃ r r', v.Makes hidden r n ∧ v.Makes hidden' r' n' ∧
    Register.Shifted start start' r r'

theorem forall₂_nodesFrom_madeAlike {hidden hidden' : InputMap} {a a' : Allotment}
    {vs : List Vertex} {ns ns' : List Node} (ha : a.Shifted start start' a')
    (h : nodesFrom hidden a vs = some ns) (h' : nodesFrom hidden' a' vs = some ns') :
    List.Forall₂ (MadeAlike start start' hidden hidden' vs) ns ns' := by
  induction vs generalizing a a' ns ns' with
  | nil =>
      cases h
      cases h'
      exact List.Forall₂.nil
  | cons v vs ih =>
      obtain ⟨n, rest, hnode, hrest, rfl⟩ := nodesFrom_cons_eq_some.1 h
      obtain ⟨n', rest', hnode', hrest', rfl⟩ := nodesFrom_cons_eq_some.1 h'
      refine List.Forall₂.cons ?_ ((ih (ha.after v.step) hrest hrest').imp ?_)
      · exact ⟨v, List.mem_cons_self .., _, _, Vertex.makes_of_node? hnode,
          Vertex.makes_of_node? hnode', ha.next⟩
      · rintro m m' ⟨w, hw, hmade⟩
        exact ⟨w, List.mem_cons_of_mem v hw, hmade⟩

namespace NodeGraph

/-- Registers that lie equally far behind the first ones, and before the next free ones. -/
def ShiftedBelow (start start' : Register) (ng ng' : NodeGraph) (r r' : Register) : Prop :=
  Register.Shifted start start' r r' ∧ r.index < ng.next.index ∧ r'.index < ng'.next.index

theorem biUnique_shiftedBelow : Relator.BiUnique (ShiftedBelow start start' ng ng') :=
  ⟨fun _ _ _ h h' => (Register.biUnique_shifted start start').1 h.1 h'.1,
    fun _ _ _ h h' => (Register.biUnique_shifted start start').2 h.1 h'.1⟩

theorem shiftedBelow_of_mem (h : ng.Represents catalog g) (h' : ng'.Represents catalog g)
    {i i' : Input} (hi : i ∈ ng.ownedInputs) (hi' : i' ∈ ng'.ownedInputs)
    (hshifted : Register.Shifted start start' i.register i'.register) :
    ShiftedBelow start start' ng ng' i.register i'.register :=
  ⟨hshifted, h.inputs.2.2 i hi, h'.inputs.2.2 i' hi'⟩

/-- What is made from two first registers, node by node and input by input. -/
theorem madeAlike_of_createNodes (hcreate : createNodes catalog start g.nodes = .ok ng)
    (hcreate' : createNodes catalog start' g.nodes = .ok ng') :
    List.Forall₂ (MadeAlike start start' ng.hidden ng'.hidden (g.vertices catalog)) ng.nodes
        ng'.nodes ∧
      SameEntries (Input.Mirrors (Register.Shifted start start')) ng.hidden.entries
        ng'.hidden.entries ∧
      Register.Shifted start start' ng.next ng'.next := by
  obtain ⟨⟨ns, a⟩, hmake, hng⟩ := Except.bind_eq_ok_iff.1 hcreate
  obtain ⟨⟨ns', a'⟩, hmake', hng'⟩ := Except.bind_eq_ok_iff.1 hcreate'
  cases hng
  cases hng'
  obtain ⟨-, -, -, rfl, hns⟩ := makeNodes_eq_ok_iff.1 hmake
  obtain ⟨-, -, -, rfl, hns'⟩ := makeNodes_eq_ok_iff.1 hmake'
  have hempty : Allotment.Shifted start start' ⟨.empty, start⟩ ⟨.empty, start'⟩ :=
    ⟨List.Forall₂.nil, Register.Shifted.refl start start'⟩
  have hallot := hempty.allot (g.vertices catalog)
  refine ⟨?_, hallot.hidden, hallot.next⟩
  refine forall₂_sortBy ?_ (forall₂_nodesFrom_madeAlike hempty hns hns')
  rintro n n' ⟨v, -, r, r', hmakes, hmakes', -⟩
  rw [hmakes.order, hmakes'.order]

/-- Nodes made from two first registers mirror each other. -/
theorem mirrors_of_createNodes (hcreate : createNodes catalog start g.nodes = .ok ng)
    (hcreate' : createNodes catalog start' g.nodes = .ok ng') :
    ng.Mirrors (ShiftedBelow start start' ng ng') ng' := by
  have h := createNodes_eq_ok hcreate
  have h' := createNodes_eq_ok hcreate'
  obtain ⟨hmade, hhidden, -⟩ := madeAlike_of_createNodes hcreate hcreate'
  have hfind : ∀ x, Option.Rel (fun i i' => i.typeTag = i'.typeTag ∧
      ShiftedBelow start start' ng ng' i.register i'.register) (ng.hidden.find? x)
        (ng'.hidden.find? x) := by
    intro x
    obtain ⟨hleft, hright⟩ := optionRel_iff.1 (hhidden.rel_find? x)
    have hbelow : ∀ {i i' : Input}, ng.hidden.find? x = some i → ng'.hidden.find? x = some i' →
        i.Mirrors (Register.Shifted start start') i' → i.typeTag = i'.typeTag ∧
          ShiftedBelow start start' ng ng' i.register i'.register := fun hi hi' hmirrors =>
      ⟨hmirrors.typeTag, shiftedBelow_of_mem h h' (mem_ownedInputs_of_find? hi)
        (mem_ownedInputs_of_find? hi') hmirrors.register⟩
    refine optionRel_iff.2 ⟨fun i hi => ?_, fun i' hi' => ?_⟩
    · obtain ⟨i', hi', hmirrors⟩ := hleft i hi
      exact ⟨i', hi', hbelow hi hi' hmirrors⟩
    · obtain ⟨i, hi, hmirrors⟩ := hright i' hi'
      exact ⟨i, hi, hbelow hi hi' hmirrors⟩
  refine ⟨List.forall₂_iff_zip.2 ⟨hmade.length_eq, fun {n n'} hn => ?_⟩, hfind,
    biUnique_shiftedBelow, fun r r' hr => hr.2⟩
  obtain ⟨hmem, hmem'⟩ := List.of_mem_zip hn
  obtain ⟨v, hv, r, r', hmakes, hmakes', hr⟩ := (List.forall₂_iff_zip.1 hmade).2 hn
  refine hmakes.mirrors hmakes' (Vertex.Same.refl v) ?_ ?_
  · intro k i i' hi hi'
    obtain ⟨_, hk, hmirrors⟩ := exists_getElem?_of_forall₂
      (hmakes.feeds_mirror hmakes' (Vertex.Same.refl v)).1 hi
    obtain rfl := Option.some.inj (hk.symm.trans hi')
    exact shiftedBelow_of_mem h h' (mem_ownedInputs_of_feed hmem (List.mem_of_getElem? hi))
      (mem_ownedInputs_of_feed hmem' (List.mem_of_getElem? hi')) (hr.trans hmirrors.register)
  · intro e he
    obtain ⟨i, hi, -⟩ := h.agrees v hv e he
    obtain ⟨i', hi', -, hbelow⟩ := (optionRel_iff.1 (hfind e.1)).1 i hi
    rwa [hiddenRegister_of_find? hi, hiddenRegister_of_find? hi']

end NodeGraph

end StepGraph.Plan
