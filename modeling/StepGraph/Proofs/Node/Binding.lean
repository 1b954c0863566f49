import Mathlib.Data.List.Range
import StepGraph.Proofs.Vertex
import StepGraph.Plan.Node

/-!
# How the inputs of a node get their registers

The inputs of a step that are not hidden get new registers, one after the other: they become
`freshInputs`. A hidden input gets a new register only if no input of its name is there yet, which
`Allotment.share` says; otherwise it is that of the input that is there, whose type it must have.

`Node.make` succeeds exactly if every hidden input of the step has the type that the allotment
afterwards has for its name, and then it makes `Node.fresh`.
-/

namespace StepGraph

/-- The register `n` places after this one. -/
def Register.advance (r : Register) (n : Nat) : Register := ⟨r.index + n⟩

@[simp] theorem Register.advance_zero (r : Register) : r.advance 0 = r := rfl

theorem Register.next_advance (r : Register) (n : Nat) : r.next.advance n = r.advance (n + 1) := by
  simp [Register.next, Register.advance, Nat.add_comm, Nat.add_left_comm]

@[simp] theorem Input.registers_make (name : String) (group : InputGroup) (spec : InputSpec)
    (r : Register) : (Input.make name group spec r).registers = [r] := rfl

@[simp] theorem Input.register_make (name : String) (group : InputGroup) (spec : InputSpec)
    (r : Register) : (Input.make name group spec r).register = r := rfl

namespace Plan

/-- Inputs with new registers, taken from the given one on. -/
def freshInputs : Register → List (InputGroup × String × InputSpec) → List Input
  | _, [] => []
  | r, (group, name, spec) :: es => Input.make name group spec r :: freshInputs r.next es

/-- What an input has been declared as. -/
def Input.declaration (i : Input) : InputGroup × String × InputSpec := (i.group, i.name, i.spec)

theorem map_declaration_freshInputs (r : Register) (es : List (InputGroup × String × InputSpec)) :
    (freshInputs r es).map Input.declaration = es := by
  induction es generalizing r with
  | nil => rfl
  | cons e es ih =>
      obtain ⟨group, name, spec⟩ := e
      rw [freshInputs, List.map_cons, ih]
      rfl

theorem map_name_freshInputs (r : Register) (es : List (InputGroup × String × InputSpec)) :
    (freshInputs r es).map Input.name = es.map fun e => e.2.1 := by
  rw [← congrArg (List.map fun e => e.2.1) (map_declaration_freshInputs r es), List.map_map]
  rfl

theorem registers_freshInputs (r : Register) (es : List (InputGroup × String × InputSpec)) :
    (freshInputs r es).map Input.registers =
      (List.range' r.index es.length).map fun k => [⟨k⟩] := by
  induction es generalizing r with
  | nil => rfl
  | cons e es ih =>
      obtain ⟨group, name, spec⟩ := e
      rw [freshInputs, List.map_cons, ih, List.length_cons, List.range'_succ]
      rfl

end Plan

namespace Plan.Allotment

/-- The allotment after a hidden input: a new name gets a new register. -/
def share (a : Allotment) (name : String) (spec : InputSpec) : Allotment :=
  match a.hidden.find? name with
  | some _ => a
  | none => ⟨a.hidden.insert name (Input.make name .hidden spec a.next), a.next.next⟩

/-- The allotment after several hidden inputs. -/
def shareAll (a : Allotment) (hs : List (String × InputSpec)) : Allotment :=
  hs.foldl (fun a e => a.share e.1 e.2) a

/-- There is a hidden input of this name, and it has the type. -/
def Agrees (a : Allotment) (name : String) (spec : InputSpec) : Prop :=
  ∃ i, a.hidden.find? name = some i ∧ i.typeTag = spec.typeTag

/-- The allotment after the inputs of a step. -/
def after (a : Allotment) (step : Step) : Allotment :=
  shareAll ⟨a.hidden, a.next.advance step.schema.visible.length⟩ step.schema.hidden.entries

variable {a : Allotment} {name x : String} {spec : InputSpec} {i : Input}

@[simp] theorem shareAll_nil : a.shareAll [] = a := rfl

@[simp] theorem shareAll_cons (e : String × InputSpec) (hs : List (String × InputSpec)) :
    a.shareAll (e :: hs) = (a.share e.1 e.2).shareAll hs := rfl

theorem share_of_some (h : a.hidden.find? name = some i) : a.share name spec = a := by
  rw [share, h]

theorem share_of_none (h : a.hidden.find? name = none) :
    a.share name spec =
      ⟨a.hidden.insert name (Input.make name .hidden spec a.next), a.next.next⟩ := by
  rw [share, h]

theorem find?_share_self :
    (a.share name spec).hidden.find? name =
      some ((a.hidden.find? name).getD (Input.make name .hidden spec a.next)) := by
  cases h : a.hidden.find? name with
  | some i => rw [share_of_some h, h, Option.getD_some]
  | none => rw [share_of_none h, OrderedMap.find?_insert, if_pos rfl, Option.getD_none]

theorem find?_share (h : a.hidden.find? x = some i) :
    (a.share name spec).hidden.find? x = some i := by
  cases hname : a.hidden.find? name with
  | some j => rwa [share_of_some hname]
  | none =>
      have hne : name ≠ x := by
        rintro rfl
        rw [h] at hname
        cases hname
      rwa [share_of_none hname, OrderedMap.find?_insert, if_neg hne]

theorem find?_shareAll {hs : List (String × InputSpec)} (h : a.hidden.find? x = some i) :
    (a.shareAll hs).hidden.find? x = some i := by
  induction hs generalizing a with
  | nil => exact h
  | cons e hs ih => exact ih (find?_share h)

theorem find?_after {step : Step} (h : a.hidden.find? x = some i) :
    (a.after step).hidden.find? x = some i :=
  find?_shareAll (a := ⟨a.hidden, _⟩) h

end Plan.Allotment

namespace Plan

/-- The register of the hidden input of a name. -/
def hiddenRegister (hidden : InputMap) (name : String) : Register :=
  ((hidden.find? name).map Input.register).getD Register.first

/-- The register of every argument of a step whose visible inputs have their registers from `start`
on. -/
def argumentMap (start : Register) (hidden : InputMap) (schema : InputSchema) :
    OrderedMap String Register :=
  .ofList (((freshInputs start schema.visible).map fun i => (i.name, i.register)) ++
    schema.hidden.entries.map fun e => (e.1, hiddenRegister hidden e.1))

/-- The node of a step before any of its inputs is set apart. -/
def Node.fresh (id : NodeId) (saved : Graph.Node) (step : Step) (start : Register)
    (hidden : InputMap) : Node where
  id := id
  type := saved.type
  step := step
  inputMap := argumentMap start hidden step.schema
  inputs := freshInputs start step.schema.visible
  slots := []
  outputs := step.outputs.map fun o => ⟨o.name, o.typeTag, []⟩
  order := saved.order.getD 0

theorem hiddenRegister_of_find? {hidden : InputMap} {name : String} {i : Input}
    (h : hidden.find? name = some i) : hiddenRegister hidden name = i.register := by
  rw [hiddenRegister, h]
  rfl

namespace Binding

/-- Visible inputs always get new registers. -/
theorem addAll_visible {es : List (InputGroup × String × InputSpec)}
    (hes : ∀ e ∈ es, e.1 ≠ .hidden) (b : Binding)
    (rest : List (InputGroup × String × InputSpec)) :
    b.addAll (es ++ rest) =
      addAll ⟨b.inputMap.insertAll ((freshInputs b.allotment.next es).map
          fun i => (i.name, i.register)),
        b.inputs ++ freshInputs b.allotment.next es,
        ⟨b.allotment.hidden, b.allotment.next.advance es.length⟩⟩ rest := by
  induction es generalizing b with
  | nil => simp [freshInputs]
  | cons e es ih =>
      obtain ⟨group, name, spec⟩ := e
      have hgroup : group ≠ .hidden := hes _ (List.mem_cons_self ..)
      have hadd : b.add group name spec =
          .ok ⟨b.inputMap.insert name b.allotment.next,
            b.inputs ++ [Input.make name group spec b.allotment.next],
            ⟨b.allotment.hidden, b.allotment.next.next⟩⟩ := by
        cases group with
        | hidden => exact absurd rfl hgroup
        | required => rfl
        | optional => rfl
      rw [List.cons_append, addAll, hadd]
      simp only
      rw [ih fun e he => hes e (List.mem_cons_of_mem _ he)]
      simp only [freshInputs, List.map_cons, OrderedMap.insertAll_cons, Input.register_make,
        Register.next_advance, List.length_cons, List.append_assoc, List.singleton_append]
      rfl

/-- Hidden inputs are added if the types agree, and then they have the registers that the allotment
afterwards has for their names. -/
theorem addAll_hidden_eq_ok_iff {hs : List (String × InputSpec)} {b b' : Binding} :
    b.addAll (hs.map fun e => (.hidden, e)) = .ok b' ↔
      (∀ e ∈ hs, (b.allotment.shareAll hs).Agrees e.1 e.2) ∧
        b' = ⟨b.inputMap.insertAll (hs.map fun e =>
            (e.1, hiddenRegister (b.allotment.shareAll hs).hidden e.1)),
          b.inputs, b.allotment.shareAll hs⟩ := by
  induction hs generalizing b with
  | nil => simp [addAll, eq_comm]
  | cons e hs ih =>
      obtain ⟨name, spec⟩ := e
      -- whichever input has the name after this step has it to the end
      have hfind : ((b.allotment.share name spec).shareAll hs).hidden.find? name =
          some ((b.allotment.hidden.find? name).getD
            (Input.make name .hidden spec b.allotment.next)) :=
        Allotment.find?_shareAll Allotment.find?_share_self
      have hregister := hiddenRegister_of_find? hfind
      simp only [List.map_cons, addAll, Allotment.shareAll_cons, List.forall_mem_cons,
        OrderedMap.insertAll_cons, hregister]
      cases hname : b.allotment.hidden.find? name with
      | none =>
          rw [hname, Option.getD_none] at hfind
          have hagrees : ((b.allotment.share name spec).shareAll hs).Agrees name spec :=
            ⟨_, hfind, rfl⟩
          simp only [add, hname, hagrees, true_and, Option.getD_none, ih]
          rw [Allotment.share_of_none hname]
      | some shared =>
          rw [hname, Option.getD_some] at hfind
          rw [Allotment.share_of_some hname] at hfind ⊢
          simp only [add, hname, Option.getD_some]
          by_cases htype : shared.typeTag = spec.typeTag
          · have hagrees : (b.allotment.shareAll hs).Agrees name spec := ⟨shared, hfind, htype⟩
            simp only [htype, if_true, hagrees, true_and, ih]
          · have hdisagrees : ¬ (b.allotment.shareAll hs).Agrees name spec := by
              rintro ⟨i, hi, htag⟩
              rw [hfind] at hi
              cases hi
              exact htype htag
            simp [htype, hdisagrees]

end Binding

/-- A node is made if the hidden inputs of its step have the types that the allotment afterwards has
for their names. -/
theorem Node.make_eq_ok_iff {id : NodeId} {saved : Graph.Node} {step : Step} {a a' : Allotment}
    {n : Node} :
    Node.make id saved step a = .ok (n, a') ↔
      (∀ e ∈ step.schema.hidden.entries, a'.Agrees e.1 e.2) ∧ a' = a.after step ∧
        n = Node.fresh id saved step a.next a'.hidden := by
  rw [Node.make, InputSchema.entries_eq,
    Binding.addAll_visible fun _ => InputSchema.group_ne_hidden_of_mem_visible]
  split
  · next b hb =>
    obtain ⟨hagrees, rfl⟩ := Binding.addAll_hidden_eq_ok_iff.1 hb
    simp only [List.nil_append, ← OrderedMap.insertAll_append] at hb ⊢
    constructor
    · intro h
      cases h
      exact ⟨hagrees, rfl, rfl⟩
    · rintro ⟨-, rfl, rfl⟩
      rfl
  · next e he =>
    refine iff_of_false (by simp) ?_
    rintro ⟨hagrees, rfl, -⟩
    exact absurd (he.symm.trans (Binding.addAll_hidden_eq_ok_iff.2 ⟨hagrees, rfl⟩)) (by simp)

end Plan

end StepGraph
