import StepGraph.Proofs.Node.Registers

/-!
# Which names can be set apart as slots

A node that has just been made has one value input for each visible input of its step. Setting slots
apart splits these inputs in two, and `Node.SetsApart` says how: the slots stand in the order of the
names, the inputs that are left keep the order of the schema, and no input is changed or lost.

It works exactly if the inputs have each name as often as it is asked for. If not, the failure is at
the first name that makes it one too many: a name that has been taken before is a duplicate, any
other one is unknown.
-/

namespace StepGraph.Plan

variable {name : String} {names before after : List String} {is taken rest : List Input}
  {n m m' : Node} {e : CompileError}

/-- The node `m` is `n` with the inputs of these names set apart as slots. -/
structure Node.SetsApart (n m : Node) (names : List String) : Prop where
  slots : m.slots.map Input.name = names
  /-- A name that is asked for again takes the next input of that name. -/
  next : ∀ (j : Nat) (name : String), names[j]? = some name →
    m.slots[j]? = (inputsNamed name n.inputs)[(names.take j).count name]?
  inputs : m.inputs.Sublist n.inputs
  perm : (m.slots ++ m.inputs).Perm n.inputs
  same : m = { n with inputs := m.inputs, slots := m.slots }

/-! ## What is set apart -/

theorem Node.setsApart_of_separateSlots (hslots : n.slots = [])
    (h : n.separateSlots names = .ok m) : n.SetsApart m names := by
  obtain ⟨taken, rest, htake, rfl⟩ := separateSlots_eq_ok_iff.1 h
  simp only [hslots, List.nil_append]
  exact ⟨map_name_of_takeInputs htake, fun j name hj => getElem?_of_takeInputs htake hj,
    sublist_of_takeInputs htake, perm_of_takeInputs htake, rfl⟩

/-- Where the inputs differ, there is one way only to set names apart. -/
theorem Node.SetsApart.unique (hnodup : n.inputs.Nodup) (h : n.SetsApart m names)
    (h' : n.SetsApart m' names) : m = m' := by
  have hslots : m.slots = m'.slots := by
    refine List.ext_getElem? fun j => ?_
    cases hj : names[j]? with
    | some name => rw [h.next j name hj, h'.next j name hj]
    | none =>
        have hlength : names.length ≤ j := List.getElem?_eq_none_iff.1 hj
        rw [List.getElem?_eq_none, List.getElem?_eq_none]
        · rwa [← h'.slots, List.length_map] at hlength
        · rwa [← h.slots, List.length_map] at hlength
  have hinputs : m.inputs = m'.inputs := by
    have hperm := h.perm.trans h'.perm.symm
    rw [hslots, List.perm_append_left_iff] at hperm
    exact (hnodup.perm_iff_eq_of_sublist h.inputs h'.inputs).1 hperm
  rw [h.same, h'.same, hslots, hinputs]

theorem Node.separateSlots_isOk_iff :
    (∃ m, n.separateSlots names = .ok m) ↔ names.Subperm (n.inputs.map Input.name) := by
  rw [← exists_takeInputs_iff]
  simp only [separateSlots_eq_ok_iff, Prod.exists]
  constructor
  · rintro ⟨-, taken, rest, htake, -⟩
    exact ⟨taken, rest, htake⟩
  · rintro ⟨taken, rest, htake⟩
    exact ⟨_, taken, rest, htake, rfl⟩

/-- Setting names apart gives the one node that has them set apart. -/
theorem Node.separateSlots_eq_ok_iff_setsApart (hslots : n.slots = []) (hnodup : n.inputs.Nodup) :
    n.separateSlots names = .ok m ↔ n.SetsApart m names := by
  refine ⟨setsApart_of_separateSlots hslots, fun h => ?_⟩
  have hnames : names.Subperm (n.inputs.map Input.name) := by
    have hperm := h.perm.map Input.name
    rw [List.map_append, h.slots] at hperm
    exact (List.sublist_append_left names _).subperm.trans hperm.subperm
  obtain ⟨m', hm'⟩ := separateSlots_isOk_iff.2 hnames
  rw [hm', h.unique hnodup (setsApart_of_separateSlots hslots hm')]

/-! ## Where it fails -/

/-- Why a name cannot be taken, if the inputs `taken` have been taken before. -/
def slotFault (id : NodeId) (taken : List Input) (name : String) : CompileError :=
  if name ∈ taken.map Input.name then .duplicateSlotInput id name else .unknownSlotInput id name

theorem Node.separateSlots_of_takeInput?_eq_none (h : takeInput? name n.inputs = none) :
    n.separateSlots (name :: names) = .error (slotFault n.id n.slots name) := by
  have hany : (n.slots.any fun s => s.name == name) = true ↔ name ∈ n.slots.map Input.name := by
    simp
  rw [separateSlots, h, slotFault]
  simp only [hany]
  split <;> rfl

/-- If names cannot be taken, there is a first one of which no input is left. -/
theorem exists_first_of_takeInputs_eq_none (h : takeInputs names is = none) :
    ∃ before name after taken rest, names = before ++ name :: after ∧
      takeInputs before is = some (taken, rest) ∧ takeInput? name rest = none := by
  induction names generalizing is with
  | nil => cases h
  | cons first names ih =>
      rw [takeInputs] at h
      cases htake : takeInput? first is with
      | none => exact ⟨[], first, names, [], is, rfl, rfl, htake⟩
      | some r =>
          obtain ⟨i, left⟩ := r
          rw [htake] at h
          obtain ⟨before, name, after, taken, rest, rfl, hbefore, hname⟩ :=
            ih (Option.map_eq_none_iff.1 h)
          refine ⟨first :: before, name, after, i :: taken, rest, rfl, ?_, hname⟩
          exact takeInputs_cons_eq_some.2 ⟨i, left, taken, htake, hbefore, rfl⟩

theorem Node.separateSlots_append (h : takeInputs before n.inputs = some (taken, rest)) :
    n.separateSlots (before ++ after) =
      ({ n with inputs := rest, slots := n.slots ++ taken } : Node).separateSlots after := by
  induction before generalizing n taken with
  | nil =>
      cases h
      rw [List.nil_append, List.append_nil]
  | cons first before ih =>
      obtain ⟨i, left, others, htake, hothers, rfl⟩ := takeInputs_cons_eq_some.1 h
      rw [List.cons_append, separateSlots, htake]
      simp only
      rw [ih (n := { n with inputs := left, slots := n.slots ++ [i] }) hothers]
      simp only [List.append_assoc, List.singleton_append]

/-- It fails at the first name of which no input is left. -/
theorem Node.separateSlots_eq_error_iff :
    n.separateSlots names = .error e ↔
      ∃ before name after taken rest, names = before ++ name :: after ∧
        takeInputs before n.inputs = some (taken, rest) ∧ takeInput? name rest = none ∧
        e = slotFault n.id (n.slots ++ taken) name := by
  constructor
  · intro h
    have hnone : takeInputs names n.inputs = none := by
      rw [Option.eq_none_iff_forall_ne_some]
      rintro ⟨taken, rest⟩ htake
      rw [separateSlots_eq_ok_iff.2 ⟨taken, rest, htake, rfl⟩] at h
      cases h
    obtain ⟨before, name, after, taken, rest, rfl, hbefore, hname⟩ :=
      exists_first_of_takeInputs_eq_none hnone
    rw [separateSlots_append hbefore, separateSlots_of_takeInput?_eq_none hname] at h
    exact ⟨before, name, after, taken, rest, rfl, hbefore, hname, (Except.error.inj h).symm⟩
  · rintro ⟨before, name, after, taken, rest, rfl, hbefore, hname, rfl⟩
    rw [separateSlots_append hbefore, separateSlots_of_takeInput?_eq_none hname]

/-- After some names one more can be taken if and only if an input of it is left. -/
theorem subperm_append_singleton_iff (h : takeInputs before is = some (taken, rest)) :
    (before ++ [name]).Subperm (is.map Input.name) ↔ name ∈ rest.map Input.name := by
  have hperm := (perm_of_takeInputs h).map Input.name
  rw [List.map_append, map_name_of_takeInputs h] at hperm
  rw [← hperm.subperm_left, List.subperm_append_left, List.singleton_subperm_iff]

/-- Where no slot is there yet, the names tell which name is the first one too many. -/
theorem Node.separateSlots_eq_error_iff_subperm (hslots : n.slots = []) :
    n.separateSlots names = .error e ↔
      ∃ before name after, names = before ++ name :: after ∧
        before.Subperm (n.inputs.map Input.name) ∧
        ¬ (before ++ [name]).Subperm (n.inputs.map Input.name) ∧
        e = if name ∈ before then .duplicateSlotInput n.id name
          else .unknownSlotInput n.id name := by
  rw [separateSlots_eq_error_iff, hslots]
  constructor
  · rintro ⟨before, name, after, taken, rest, rfl, hbefore, hname, rfl⟩
    refine ⟨before, name, after, rfl, exists_takeInputs_iff.1 ⟨_, hbefore⟩, ?_, ?_⟩
    · rwa [subperm_append_singleton_iff hbefore, ← takeInput?_eq_none_iff]
    · rw [slotFault, List.nil_append, map_name_of_takeInputs hbefore]
  · rintro ⟨before, name, after, rfl, hbefore, hname, rfl⟩
    obtain ⟨⟨taken, rest⟩, htake⟩ := exists_takeInputs_iff.2 hbefore
    refine ⟨before, name, after, taken, rest, rfl, htake, ?_, ?_⟩
    · rwa [takeInput?_eq_none_iff, ← subperm_append_singleton_iff htake]
    · rw [slotFault, List.nil_append, map_name_of_takeInputs htake]

/-! ## The slots of a new node -/

/-- Names can be set apart on a node that has just been made if and only if its visible inputs have
each of them as often as it is asked for, and then the node is split in the one way that
`Node.SetsApart` leaves. Otherwise the failure names the first name that is one too many, which is a
duplicate if it has been taken before and unknown if not, as names of hidden inputs are. -/
theorem slots_partition_inputs (id : NodeId) (saved : Graph.Node) (step : Step) (a a' : Allotment)
    (n : Node) (h : Node.make id saved step a = .ok (n, a')) (names : List String) :
    n.inputs.map Input.declaration = step.schema.visible ∧
      ((∃ m, n.separateSlots names = .ok m) ↔ names.Subperm (n.inputs.map Input.name)) ∧
      (∀ m, n.separateSlots names = .ok m ↔ n.SetsApart m names) ∧
      (∀ e, n.separateSlots names = .error e ↔
        ∃ before name after, names = before ++ name :: after ∧
          before.Subperm (n.inputs.map Input.name) ∧
          ¬ (before ++ [name]).Subperm (n.inputs.map Input.name) ∧
          e = if name ∈ before then .duplicateSlotInput id name
            else .unknownSlotInput id name) ∧
      ∀ before after, ∀ name ∈ step.schema.hidden.keys, name ∉ n.inputs.map Input.name →
        before.Subperm (n.inputs.map Input.name) →
          n.separateSlots (before ++ name :: after) = .error (.unknownSlotInput id name) := by
  obtain ⟨-, -, rfl⟩ := Node.make_eq_ok_iff.1 h
  have hnodup : (freshInputs a.next step.schema.visible).Nodup :=
    (nodup_register_freshInputs a.next step.schema.visible).of_map
  refine ⟨map_declaration_freshInputs _ _, Node.separateSlots_isOk_iff,
    fun m => Node.separateSlots_eq_ok_iff_setsApart rfl hnodup,
    fun e => Node.separateSlots_eq_error_iff_subperm rfl, ?_⟩
  intro before after name _ hname hbefore
  refine (Node.separateSlots_eq_error_iff_subperm rfl).2
    ⟨before, name, after, rfl, hbefore, fun hsub => ?_, ?_⟩
  · exact hname (hsub.subset (by simp))
  · exact (if_neg fun hmem => hname (hbefore.subset hmem)).symm

/-- A step with two visible inputs of one name and a hidden input. -/
def blendStep : Step where
  schema := ⟨.ofList [("value", .ofType "INT"), ("seed", .ofType "INT")],
    .ofList [("value", .ofType "INT"), ("weight", .ofType "INT")],
    .ofList [("context", .ofType "ANY")]⟩
  outputs := [.ofType "INT"]
  invoke params := pure (.plain (params.find? "value").toList)

/-- A node of such a step. -/
def blendNode : Graph.Node := ⟨"blend", some ⟨"blend"⟩, none, [], [], .empty⟩

/-- The name of the two inputs can be taken twice, that of the hidden input not at all. -/
theorem blend_slots_partition :
    ∃ n a', Node.make ⟨"blend"⟩ blendNode blendStep ⟨.empty, .first⟩ = .ok (n, a') ∧
      (∃ m, n.separateSlots ["value", "seed", "value"] = .ok m) ∧
      n.separateSlots ["value", "value", "context", "value"] =
        .error (.unknownSlotInput ⟨"blend"⟩ "context") ∧
      n.separateSlots ["value", "seed", "seed"] =
        .error (.duplicateSlotInput ⟨"blend"⟩ "seed") := by
  obtain ⟨n, a', hn⟩ : ∃ n a', Node.make ⟨"blend"⟩ blendNode blendStep ⟨.empty, .first⟩ =
      .ok (n, a') := ⟨_, _, rfl⟩
  have hpartition := slots_partition_inputs _ _ _ _ _ n hn
  cases hn
  refine ⟨_, _, rfl, (hpartition _).2.1.2 (by decide), ?_, ?_⟩
  · exact (hpartition []).2.2.2.2 ["value", "value"] ["value"] "context" (by decide) (by decide)
      (by decide)
  · exact ((hpartition _).2.2.2.1 _).2 ⟨["value", "seed"], "seed", [], rfl, by decide, by decide,
      rfl⟩

end StepGraph.Plan
