import StepGraph.Plan.Surface
import StepGraph.Proofs.Node.Creation

/-!
# Which registers the nodes of a graph own

Every input of a node, slot or value input, and every shared hidden input owns one register, and no
two of them own the same one. The list `ls` of what each input owns is `Separate next ls`: one
register each, all different, and all taken from the counter before `next`. Fresh inputs keep a list
separate, and neither setting slots apart nor positional values change what an input owns.

A node reads its arguments from registers of its own inputs and of hidden inputs. How many registers
are given away in all depends on how many visible inputs the steps have and how many hidden ones of
different names, and on nothing else.
-/

namespace StepGraph

open Plan

theorem Register.nodup_map_mk_range' (start n : Nat) :
    ((List.range' start n).map Register.mk).Nodup := by
  refine List.Nodup.map ?_ List.nodup_range'
  intro k k' hk
  exact congrArg Register.index hk

/-- One register each, all different, and all from before `next`. -/
structure Separate (next : Register) (ls : List (List Register)) : Prop where
  single : ∀ l ∈ ls, ∃ r, l = [r]
  nodup : ls.flatten.Nodup
  lt_next : ∀ l ∈ ls, ∀ r ∈ l, r.index < next.index

namespace Separate

variable {next : Register} {ls ls' : List (List Register)}

theorem nil : Separate next [] := ⟨by simp, by simp, by simp⟩

theorem perm (h : Separate next ls) (hperm : ls'.Perm ls) : Separate next ls' := by
  refine ⟨?_, ?_, ?_⟩
  · intro l hl
    exact h.single l (hperm.mem_iff.1 hl)
  · exact hperm.flatten.nodup_iff.2 h.nodup
  · intro l hl
    exact h.lt_next l (hperm.mem_iff.1 hl)

theorem append_range' (h : Separate next ls) (n : Nat) :
    Separate (next.advance n) (ls ++ (List.range' next.index n).map fun k => [⟨k⟩]) := by
  have hflatten : ((List.range' next.index n).map fun k => [(⟨k⟩ : Register)]).flatten =
      (List.range' next.index n).map Register.mk := by
    rw [← List.flatMap_def, List.map_eq_flatMap]
  refine ⟨?_, ?_, ?_⟩
  · intro l hl
    rcases List.mem_append.1 hl with hl | hl
    · exact h.single l hl
    · obtain ⟨k, -, rfl⟩ := List.mem_map.1 hl
      exact ⟨⟨k⟩, rfl⟩
  · rw [List.flatten_append, hflatten]
    refine List.nodup_append.2 ⟨h.nodup, Register.nodup_map_mk_range' _ _, ?_⟩
    · intro r hr s hs
      obtain ⟨l, hl, hr⟩ := List.mem_flatten.1 hr
      obtain ⟨k, hk, rfl⟩ := List.mem_map.1 hs
      have hlt := h.lt_next l hl r hr
      have hle := (List.mem_range'_1.1 hk).1
      rintro rfl
      exact absurd hlt (Nat.not_lt.2 hle)
  · intro l hl r hr
    rcases List.mem_append.1 hl with hl | hl
    · exact Nat.lt_of_lt_of_le (h.lt_next l hl r hr) (Nat.le_add_right _ _)
    · obtain ⟨k, hk, rfl⟩ := List.mem_map.1 hl
      obtain rfl := List.mem_singleton.1 hr
      exact (List.mem_range'_1.1 hk).2

end Separate

namespace Plan

theorem nodup_register_freshInputs (r : Register)
    (es : List (InputGroup × String × InputSpec)) :
    ((freshInputs r es).map Input.register).Nodup := by
  have hregisters : (freshInputs r es).map Input.register =
      (List.range' r.index es.length).map Register.mk := by
    have hheads := congrArg (List.map fun l => l.headD Register.first) (registers_freshInputs r es)
    rw [List.map_map, List.map_map] at hheads
    exact hheads
  rw [hregisters]
  exact Register.nodup_map_mk_range' _ _

/-! ## Positional values leave everything but the default of an input -/

theorem assignDefaults_nil (is : List Input) : assignDefaults is [] = is := by
  cases is <;> rfl

theorem map_assignDefaults {α : Type} {f : Input → α}
    (hf : ∀ i value, f (i.withDefault value) = f i) (is : List Input) (values : List Json) :
    (assignDefaults is values).map f = is.map f := by
  induction is generalizing values with
  | nil => simp [assignDefaults]
  | cons i is ih =>
      cases values with
      | nil => simp [assignDefaults]
      | cons value values => rw [assignDefaults, List.map_cons, List.map_cons, hf, ih]

end Plan

namespace Vertex

variable {hidden : InputMap} {start : Register} {v : Vertex} {n : Node}

/-- What the node of a vertex is, apart from its inputs, and how those come from fresh ones. -/
structure Makes (hidden : InputMap) (start : Register) (v : Vertex) (n : Node) : Prop where
  id : n.id = v.id
  type : n.type = v.saved.type
  step : n.step = v.step
  order : n.order = v.hint
  inputMap : n.inputMap = argumentMap start hidden v.step.schema
  outputs : n.outputs = v.step.outputs.map fun o => ⟨o.name, o.typeTag, []⟩
  separated : ∃ rest, takeInputs v.slotNames (freshInputs start v.step.schema.visible) =
    some (n.slots, rest) ∧ n.inputs = assignDefaults rest v.saved.values

theorem makes_of_node? (h : v.node? hidden start = some n) : v.Makes hidden start n := by
  obtain ⟨⟨slots, rest⟩, htake, rfl⟩ := Option.map_eq_some_iff.1 h
  exact ⟨rfl, rfl, rfl, rfl, rfl, rfl, rest, htake, rfl⟩

namespace Makes

/-- The slots and the value inputs of a node are its fresh inputs, up to their defaults. -/
theorem perm_feeds (h : v.Makes hidden start n) {α : Type} {f : Input → α}
    (hf : ∀ i value, f (i.withDefault value) = f i) :
    (n.feeds.map f).Perm ((freshInputs start v.step.schema.visible).map f) := by
  obtain ⟨rest, htake, hinputs⟩ := h.separated
  rw [Node.feeds, List.map_append, hinputs, map_assignDefaults hf, ← List.map_append]
  exact (perm_of_takeInputs htake).map f

theorem map_name_slots (h : v.Makes hidden start n) : n.slots.map Input.name = v.slotNames := by
  obtain ⟨rest, htake, -⟩ := h.separated
  exact map_name_of_takeInputs htake

theorem map_declaration_getElem?_slots (h : v.Makes hidden start n) (j : Nat) :
    n.slots[j]?.map Input.declaration = v.slot? j := by
  have hnames := h.map_name_slots
  obtain ⟨rest, htake, -⟩ := h.separated
  rw [slot?]
  cases hj : v.slotNames[j]? with
  | none =>
      have hslot : n.slots[j]? = none := by
        have hname : (n.slots.map Input.name)[j]? = none := by rw [hnames, hj]
        simpa using hname
      rw [hslot, Option.map_none, Option.bind_none]
  | some name =>
      have hfresh : (inputsNamed name (freshInputs start v.step.schema.visible)).map
          Input.declaration = v.step.schema.visible.filter fun e => e.2.1 = name := by
        rw [← congrArg (List.filter _) (map_declaration_freshInputs start _), List.filter_map]
        rfl
      rw [getElem?_of_takeInputs htake hj, Option.bind_some, ← hfresh, List.getElem?_map]

theorem length_slots (h : v.Makes hidden start n) : n.slots.length = v.slotNames.length := by
  simpa using congrArg List.length h.map_name_slots

theorem length_outputs (h : v.Makes hidden start n) :
    n.outputs.length = v.step.outputs.length := by
  rw [h.outputs, List.length_map]

theorem map_typeTag_getElem?_slots (h : v.Makes hidden start n) (j : Nat) :
    n.slots[j]?.map Input.typeTag = (v.slot? j).map fun e => e.2.2.typeTag := by
  rw [← h.map_declaration_getElem?_slots, Option.map_map]
  rfl

theorem map_typeTag_getElem?_outputs (h : v.Makes hidden start n) (k : Nat) :
    n.outputs[k]?.map Output.typeTag = v.step.outputs[k]?.map OutputSpec.typeTag := by
  rw [h.outputs, List.getElem?_map, Option.map_map]
  rfl

/-- An argument is read from the register of a slot, a value input or a hidden input of its name. -/
theorem mem_entries_inputMap (h : v.Makes hidden start n) {a : String × Register}
    (ha : a ∈ n.inputMap.entries) :
    (∃ i ∈ n.feeds, i.name = a.1 ∧ i.register = a.2) ∨
      ∃ e ∈ v.step.schema.hidden.entries, e.1 = a.1 ∧ hiddenRegister hidden e.1 = a.2 := by
  rw [h.inputMap] at ha
  rcases OrderedMap.mem_entries_insertAll ha with ha | ha
  · simp at ha
  rcases List.mem_append.1 ha with ha | ha
  · obtain ⟨i, hi, rfl⟩ := List.mem_map.1 ha
    have hperm := h.perm_feeds (f := fun i => (i.name, i.register)) fun _ _ => rfl
    obtain ⟨j, hj, hij⟩ := List.mem_map.1 (hperm.mem_iff.2 (List.mem_map_of_mem hi))
    exact Or.inl ⟨j, hj, Prod.mk.inj hij⟩
  · obtain ⟨e, he, rfl⟩ := List.mem_map.1 ha
    exact Or.inr ⟨e, he, rfl, rfl⟩

theorem mem_values_inputMap (h : v.Makes hidden start n) {r : Register}
    (hr : r ∈ n.inputMap.values) :
    (∃ i ∈ n.feeds, i.register = r) ∨
      ∃ e ∈ v.step.schema.hidden.entries, hiddenRegister hidden e.1 = r := by
  obtain ⟨a, ha, rfl⟩ := List.mem_map.1 hr
  rcases h.mem_entries_inputMap ha with ⟨i, hi, -, heq⟩ | ⟨e, he, -, heq⟩
  · exact Or.inl ⟨i, hi, heq⟩
  · exact Or.inr ⟨e, he, heq⟩

end Makes

end Vertex

namespace Plan

/-! ## The registers that are given away -/

/-- What the hidden inputs own. -/
def Allotment.hiddenRegisters (a : Allotment) : List (List Register) :=
  a.hidden.values.map Input.registers

/-- What the slots and value inputs of nodes own. -/
def feedRegisters (ns : List Node) : List (List Register) :=
  (ns.flatMap Node.feeds).map Input.registers

variable {a : Allotment} {ls : List (List Register)}

theorem Allotment.hiddenRegisters_share_of_none {name : String} {spec : InputSpec}
    (h : a.hidden.find? name = none) :
    (a.share name spec).hiddenRegisters = a.hiddenRegisters ++ [[a.next]] := by
  rw [share_of_none h, hiddenRegisters, OrderedMap.values,
    OrderedMap.entries_insert_of_not_mem (OrderedMap.find?_eq_none_iff.1 h)]
  simp [hiddenRegisters, OrderedMap.values]

theorem Allotment.separate_share (h : Separate a.next (ls ++ a.hiddenRegisters)) (name : String)
    (spec : InputSpec) :
    Separate (a.share name spec).next (ls ++ (a.share name spec).hiddenRegisters) := by
  cases hname : a.hidden.find? name with
  | some i => rwa [share_of_some hname]
  | none =>
      rw [hiddenRegisters_share_of_none hname, share_of_none hname, ← List.append_assoc]
      exact h.append_range' 1

theorem Allotment.separate_shareAll {hs : List (String × InputSpec)}
    (h : Separate a.next (ls ++ a.hiddenRegisters)) :
    Separate (a.shareAll hs).next (ls ++ (a.shareAll hs).hiddenRegisters) := by
  induction hs generalizing a with
  | nil => exact h
  | cons e hs ih => exact ih (separate_share h e.1 e.2)

theorem Allotment.separate_after (h : Separate a.next (ls ++ a.hiddenRegisters)) (step : Step) :
    Separate (a.after step).next
      (ls ++ (freshInputs a.next step.schema.visible).map Input.registers ++
        (a.after step).hiddenRegisters) := by
  refine separate_shareAll (a := ⟨a.hidden, a.next.advance step.schema.visible.length⟩) ?_
  rw [registers_freshInputs]
  refine (h.append_range' step.schema.visible.length).perm ?_
  rw [List.append_assoc, List.append_assoc]
  exact List.perm_append_comm.append_left ls

/-- The nodes of a graph and the hidden inputs own separate registers. -/
theorem separate_nodesFrom {hidden : InputMap} {vs : List Vertex} {ns : List Node}
    (h : Separate a.next (ls ++ a.hiddenRegisters)) (hns : nodesFrom hidden a vs = some ns) :
    Separate (a.allot vs).next (ls ++ feedRegisters ns ++ (a.allot vs).hiddenRegisters) := by
  induction vs generalizing a ls ns with
  | nil =>
      cases hns
      simpa [feedRegisters] using h
  | cons v vs ih =>
      obtain ⟨n, rest, hnode, hrest, rfl⟩ := nodesFrom_cons_eq_some.1 hns
      have hperm := (Vertex.makes_of_node? hnode).perm_feeds (f := Input.registers) fun _ _ => rfl
      refine (ih (Allotment.separate_after h v.step) hrest).perm ?_
      rw [Allotment.allot_cons, feedRegisters, List.flatMap_cons, List.map_append,
        ← List.append_assoc ls]
      exact ((hperm.append_left ls).append_right _).append_right _

/-! ## How many are given away -/

/-- A hidden input gets a register when it is new, and only then. -/
theorem Allotment.next_shareAll (a : Allotment) (hs : List (String × InputSpec)) :
    (a.shareAll hs).next.index + a.hidden.keys.length =
      a.next.index + (a.shareAll hs).hidden.keys.length := by
  have hshare : ∀ (a : Allotment) (name : String) (spec : InputSpec),
      (a.share name spec).next.index + a.hidden.keys.length =
        a.next.index + (a.share name spec).hidden.keys.length := by
    intro a name spec
    cases hname : a.hidden.find? name with
    | some i => rw [share_of_some hname]
    | none =>
        have hnext : a.next.next.index = a.next.index + 1 := rfl
        rw [share_of_none hname, hnext, OrderedMap.keys, OrderedMap.keys,
          OrderedMap.entries_insert_of_not_mem (OrderedMap.find?_eq_none_iff.1 hname), Entries.keys,
          Entries.keys, List.map_append, List.length_append, List.length_map]
        exact Nat.add_right_comm ..
  induction hs generalizing a with
  | nil => rfl
  | cons e hs ih =>
      have hfirst := hshare a e.1 e.2
      have hrest := ih (a.share e.1 e.2)
      rw [shareAll_cons]
      omega

/-- Each visible input gets a register, and each hidden one that is new. -/
theorem Allotment.next_allot (a : Allotment) (vs : List Vertex) :
    (a.allot vs).next.index + a.hidden.keys.length =
      a.next.index + (vs.flatMap fun v => v.step.schema.visible).length +
        (a.allot vs).hidden.keys.length := by
  induction vs generalizing a with
  | nil => rfl
  | cons v vs ih =>
      have hfirst : (a.after v.step).next.index + a.hidden.keys.length =
          a.next.index + v.step.schema.visible.length + (a.after v.step).hidden.keys.length :=
        next_shareAll ⟨a.hidden, a.next.advance v.step.schema.visible.length⟩ _
      have hrest := ih (a.after v.step)
      rw [allot_cons, List.flatMap_cons, List.length_append]
      omega

end Plan

end StepGraph
