import StepGraph.Proofs.Node.Arrangement
import StepGraph.Proofs.Node.Separation

/-!
# Where positional values go

Values are given to the value inputs of a node in their order, and after the value of an input with
a companion comes that of the companion. So input number `k` gets the value at `k` plus the number
of companions among the inputs before it, `companionsBefore is k`. An input for which the list is
too short keeps the default that it is declared with.

`Node.TakesValues` says this, and that nothing but defaults changes. A graph is then made into the
nodes that it has without positional values, save for these defaults: the slots, the registers and
the shared hidden inputs are the same.
-/

namespace StepGraph

open Plan

namespace InputSpec

variable (s : InputSpec) (value : Json) {key : String}

theorem default?_withDefault : (s.withDefault value).default? = some value := by
  rw [default?, withDefault, withEntry, OrderedMap.find?_insert, if_pos rfl]

theorem find?_withDefault_of_ne (h : key ≠ "default") :
    (s.withDefault value).metadata.find? key = s.metadata.find? key := by
  rw [withDefault, withEntry, OrderedMap.find?_insert, if_neg h.symm]

theorem flag_withDefault (h : key ≠ "default") :
    (s.withDefault value).flag key = s.flag key := by
  rw [flag, flag, find?_withDefault_of_ne s value h]

end InputSpec

namespace Input

/-- The default of an input does not say whether it has a companion. -/
@[simp] theorem hasCompanion_withDefault (i : Input) (value : Json) :
    (i.withDefault value).hasCompanion = i.hasCompanion := by
  simp only [hasCompanion, typeTag, withDefault, InputSpec.flag_withDefault i.spec value
    (show "control_after_generate" ≠ "default" by decide), InputSpec.flag_withDefault i.spec value
    (show "image_upload" ≠ "default" by decide)]
  rfl

/-- The input `j` is `i` with this default, and the same in everything else. -/
structure Defaulted (i : Input) (value : Json) (j : Input) : Prop where
  default : j.spec.default? = some value
  metadata : ∀ key, key ≠ "default" → j.spec.metadata.find? key = i.spec.metadata.find? key
  same : j = { i with spec := { i.spec with metadata := j.spec.metadata } }

theorem defaulted_withDefault (i : Input) (value : Json) :
    i.Defaulted value (i.withDefault value) :=
  ⟨i.spec.default?_withDefault value, fun _ => i.spec.find?_withDefault_of_ne value, rfl⟩

end Input

namespace Plan

/-- The number of companions of the first `k` inputs. -/
def companionsBefore (is : List Input) (k : Nat) : Nat := (is.take k).countP Input.hasCompanion

theorem companionsBefore_cons (i : Input) (is : List Input) (k : Nat) :
    companionsBefore (i :: is) (k + 1) =
      companionsBefore is k + if i.hasCompanion then 1 else 0 := by
  rw [companionsBefore, List.take_succ_cons, List.countP_cons, companionsBefore]

theorem companionsBefore_congr {is is' : List Input}
    (h : is.map Input.hasCompanion = is'.map Input.hasCompanion) (k : Nat) :
    companionsBefore is k = companionsBefore is' k := by
  have hcount : ∀ js : List Input,
      js.countP Input.hasCompanion = (js.map Input.hasCompanion).countP id := by
    intro js
    rw [List.countP_map]
    rfl
  rw [companionsBefore, companionsBefore, hcount, hcount, List.map_take, List.map_take, h]

/-- The value for each input stands behind those of the inputs and companions before it. -/
theorem getElem?_assignDefaults (is : List Input) (values : List Json) (k : Nat) :
    (assignDefaults is values)[k]? = is[k]?.map fun i =>
      (values[k + companionsBefore is k]?.map i.withDefault).getD i := by
  induction is generalizing values k with
  | nil => simp [assignDefaults]
  | cons i is ih =>
      cases values with
      | nil => simp [assignDefaults]
      | cons value values =>
          cases k with
          | zero => simp [assignDefaults, companionsBefore]
          | succ k =>
              rw [assignDefaults, List.getElem?_cons_succ, List.getElem?_cons_succ, ih,
                companionsBefore_cons]
              -- the value of the companion is dropped, which moves the others by one
              cases i.hasCompanion with
              | true =>
                  have hmove : k + 1 + (companionsBefore is k + 1) =
                      k + companionsBefore is k + 1 + 1 := by omega
                  simp [hmove]
              | false =>
                  have hmove : k + 1 + companionsBefore is k = k + companionsBefore is k + 1 := by
                    omega
                  simp [hmove]

/-- The node `r` is `m` with these values as defaults of its value inputs. -/
structure Node.TakesValues (m r : Node) (values : List Json) : Prop where
  length : r.inputs.length = m.inputs.length
  given : ∀ k i value, m.inputs[k]? = some i →
    values[k + companionsBefore m.inputs k]? = some value →
      ∃ j, r.inputs[k]? = some j ∧ i.Defaulted value j ∧ j = i.withDefault value
  kept : ∀ k i, m.inputs[k]? = some i → values[k + companionsBefore m.inputs k]? = none →
    r.inputs[k]? = some i
  /-- It does not matter whether companions are counted before or after. -/
  companions : ∀ k, companionsBefore r.inputs k = companionsBefore m.inputs k
  same : r = { m with inputs := r.inputs }

theorem Node.takesValues_withDefaults (m : Node) (values : List Json) :
    m.TakesValues (m.withDefaults values) values := by
  have hat := getElem?_assignDefaults m.inputs values
  refine ⟨?_, ?_, ?_, ?_, rfl⟩
  · have hnames := map_assignDefaults (f := Input.name) (fun _ _ => rfl) m.inputs values
    simpa [withDefaults] using congrArg List.length hnames
  · intro k i value hi hvalue
    refine ⟨i.withDefault value, ?_, i.defaulted_withDefault value, rfl⟩
    rw [withDefaults, hat, hi, Option.map_some, hvalue]
    rfl
  · intro k i hi hvalue
    rw [withDefaults, hat, hi, Option.map_some, hvalue]
    rfl
  · exact companionsBefore_congr
      (map_assignDefaults (fun i value => i.hasCompanion_withDefault value) m.inputs values)

/-! ## Graphs without positional values -/

/-- The node of a saved graph without its positional values. -/
def withoutValues (n : Graph.Node) : Graph.Node := { n with values := [] }

/-- The value inputs of a node are of its step, in the order of the schema. -/
def Node.InSchemaOrder (n : Node) : Prop :=
  (n.inputs.map Input.declaration).Sublist n.step.schema.visible

/-- A node of a list takes the values of the saved node that it is made from. -/
structure TakesSaved (saved : List (Graph.Node × Nat)) (m n : Node) (s : Graph.Node) (i : Nat) :
    Prop where
  mem : (s, i) ∈ saved
  id : m.id = s.idAt i
  inSchemaOrder : m.InSchemaOrder
  eq : n = m.withDefaults s.values

theorem Node.id_and_inSchemaOrder_of_make {id : NodeId} {s : Graph.Node} {step : Step}
    {a a' : Allotment} {n m : Node} {names : List String}
    (hmake : Node.make id s step a = .ok (n, a')) (hslots : n.separateSlots names = .ok m) :
    m.id = id ∧ m.InSchemaOrder := by
  obtain ⟨-, -, rfl⟩ := Node.make_eq_ok_iff.1 hmake
  obtain ⟨taken, rest, htake, rfl⟩ := separateSlots_eq_ok_iff.1 hslots
  refine ⟨rfl, ?_⟩
  have hsub := (sublist_of_takeInputs htake).map Input.declaration
  rwa [fresh, map_declaration_freshInputs] at hsub

/-- Positional values have no part in making nodes, until the defaults are set. -/
theorem makeNodes_withoutValues {catalog : Catalog} {start : Nat} {seen : List NodeId}
    {a a' : Allotment} {saved : List Graph.Node} {ns : List Node}
    (h : makeNodes catalog start seen a saved = .ok (ns, a')) :
    ∃ ms, makeNodes catalog start seen a (saved.map withoutValues) = .ok (ms, a') ∧
      List.Forall₂ (fun m n => ∃ s i, TakesSaved (saved.zipIdx start) m n s i) ms ns := by
  induction saved generalizing start seen a ns with
  | nil =>
      cases h
      exact ⟨[], rfl, List.Forall₂.nil⟩
  | cons s saved ih =>
      obtain ⟨hseen, step, hstep, n₁, a₁, hmake, n₂, rest, hslots, hrest, rfl⟩ :=
        makeNodes_cons_eq_ok_iff.1 h
      obtain ⟨ms, hms, htakes⟩ := ih hrest
      refine ⟨n₂ :: ms, makeNodes_cons_eq_ok_iff.2
        ⟨hseen, step, hstep, n₁, a₁, hmake, n₂, ms, hslots, hms, ?_⟩, List.Forall₂.cons ?_ ?_⟩
      · rw [withoutValues, Node.withDefaults, assignDefaults_nil]
      · obtain ⟨hid, horder⟩ := Node.id_and_inSchemaOrder_of_make hmake hslots
        exact ⟨s, start, List.mem_cons_self .., hid, horder, rfl⟩
      · refine htakes.imp ?_
        rintro m n ⟨t, i, h⟩
        exact ⟨t, i, List.mem_cons_of_mem _ h.mem, h.id, h.inSchemaOrder, h.eq⟩

theorem createNodes_withoutValues {catalog : Catalog} {start : Register} {saved : List Graph.Node}
    {ng : NodeGraph} (h : createNodes catalog start saved = .ok ng) :
    ∃ ng', createNodes catalog start (saved.map withoutValues) = .ok ng' ∧
      ng.hidden = ng'.hidden ∧ ng.next = ng'.next ∧
      List.Forall₂ (fun m n => ∃ s i, TakesSaved saved.zipIdx m n s i) ng'.nodes ng.nodes := by
  obtain ⟨⟨ns, a⟩, hmake, hng⟩ := Except.bind_eq_ok_iff.1 h
  cases hng
  obtain ⟨ms, hms, htakes⟩ := makeNodes_withoutValues hmake
  refine ⟨⟨sortBy Node.order ms, a.hidden, a.next⟩, ?_, rfl, rfl, ?_⟩
  · rw [createNodes, hms]
    rfl
  · refine forall₂_sortBy ?_ htakes
    rintro m n ⟨s, i, h⟩
    rw [h.eq]
    rfl

/-- Once slots are set apart, the value inputs that are left, in the order of the schema, take the
positional values, each the one at its number plus the number of companions before it. In a graph
this is all that positional values do: the same nodes are made without them, with other defaults,
and the same hidden inputs are shared. -/
theorem defaults_land_behind_companions :
    (∀ (n m : Node) (names : List String) (values : List Json),
      n.separateSlots names = .ok m →
        m.inputs.Sublist n.inputs ∧ m.TakesValues (m.withDefaults values) values) ∧
      ∀ (catalog : Catalog) (start : Register) (saved : List Graph.Node) (ng : NodeGraph),
        createNodes catalog start saved = .ok ng →
          ∃ ng', createNodes catalog start (saved.map withoutValues) = .ok ng' ∧
            ng.hidden = ng'.hidden ∧ ng.next = ng'.next ∧
            List.Forall₂ (fun m r => ∃ (s : Graph.Node) (i : Nat), saved[i]? = some s ∧
              m.id = s.idAt i ∧ m.InSchemaOrder ∧ m.TakesValues r s.values)
              ng'.nodes ng.nodes := by
  constructor
  · intro n m names values h
    obtain ⟨taken, rest, htake, rfl⟩ := separateSlots_eq_ok_iff.1 h
    exact ⟨sublist_of_takeInputs htake, Node.takesValues_withDefaults _ values⟩
  · intro catalog start saved ng h
    obtain ⟨ng', hng', hhidden, hnext, htakes⟩ := createNodes_withoutValues h
    refine ⟨ng', hng', hhidden, hnext, htakes.imp ?_⟩
    rintro m r ⟨s, i, h⟩
    refine ⟨s, i, List.mem_zipIdx_iff_getElem?.1 h.mem, h.id, h.inSchemaOrder, ?_⟩
    rw [h.eq]
    exact m.takesValues_withDefaults s.values

/-- A node with a slot, a value for its seed, one for the companion of the seed and one more. -/
def seededBlend : Graph.Node :=
  { blendNode with slots := [⟨"value", .empty⟩], values := [.bool true, .null, .bool false] }

/-- The second value is passed over, and for the weight there is none. -/
theorem seededBlend_defaults_land :
    (∃ n m : Node, n.separateSlots ["value"] = .ok m ∧
      m.TakesValues (m.withDefaults seededBlend.values) seededBlend.values) ∧
      ∃ (ng : NodeGraph) (m r : Node),
        createNodes (fun _ => some blendStep) .first [seededBlend] = .ok ng ∧ ng.nodes = [r] ∧
          m.inputs.map Input.name = ["seed", "value", "weight"] ∧
          m.TakesValues r seededBlend.values ∧
          r.inputs.map (fun i => i.spec.default?) =
            [some (.bool true), some (.bool false), none] := by
  constructor
  · obtain ⟨n, a, hn⟩ : ∃ n a, Node.make ⟨"blend"⟩ seededBlend blendStep ⟨.empty, .first⟩ =
        .ok (n, a) := ⟨_, _, rfl⟩
    obtain ⟨m, hm⟩ : ∃ m, n.separateSlots ["value"] = .ok m := by
      cases hn
      exact ⟨_, rfl⟩
    exact ⟨n, m, hm, (defaults_land_behind_companions.1 n m _ _ hm).2⟩
  · obtain ⟨ng, hng⟩ : ∃ ng, createNodes (fun _ => some blendStep) .first [seededBlend] = .ok ng :=
      ⟨_, rfl⟩
    obtain ⟨ng', hng', -, -, htakes⟩ := defaults_land_behind_companions.2 _ _ _ ng hng
    cases hng
    cases hng'
    obtain ⟨⟨s, i, hs, -, -, hvalues⟩, -⟩ := List.forall₂_cons.1 htakes
    cases i with
    | zero =>
        cases hs
        exact ⟨_, _, _, rfl, rfl, rfl, hvalues, rfl⟩
    | succ i => cases hs

end Plan

end StepGraph
