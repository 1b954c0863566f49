import StepGraph.Proofs.Dataflow.Evaluation
import StepGraph.Proofs.Ownership
import StepGraph.Proofs.Surface.Reshaping

/-!
# What is in the registers during a run

At the start of a run the registers that an input owns hold the parameter of its name, and all
others are empty. A stage puts each of its values into the registers of the output in the same
place; where it puts several values into one register, the last one stays.
-/

namespace StepGraph

/-- Where no register has two owners, the owner of a register has one name. -/
theorem Surface.name_eq_of_mem_registers {m : InputMap} (hnodup : (registers m).Nodup)
    {x y : String} {i j : Input} (hi : m.find? x = some i) (hj : m.find? y = some j) {r : Register}
    (hri : r ∈ i.registers) (hrj : r ∈ j.registers) : x = y := by
  rw [registers, OrderedMap.values, List.flatMap_map] at hnodup
  exact congrArg Prod.fst (eq_of_mem_of_nodup_flatMap hnodup (OrderedMap.find?_eq_some_iff.1 hi)
    (OrderedMap.find?_eq_some_iff.1 hj) hri hrj)

namespace Store

theorem find?_setAll (s : Store) (registers : List Register) (value : Json) (r : Register) :
    (s.setAll registers value).find? r = if r ∈ registers then some value else s.find? r := by
  induction registers generalizing s with
  | nil => simp
  | cons r' registers ih =>
      rw [setAll_cons, ih, OrderedMap.find?_insert]
      by_cases hr : r ∈ registers
      · simp [hr]
      · by_cases hr' : r' = r
        · simp [hr']
        · simp [hr, hr', Ne.symm hr']

/-- If there is an input for every parameter, each parameter goes to the registers of its input. -/
theorem exists_seedFrom {inputs : InputMap} (hnodup : (Surface.registers inputs).Nodup)
    {es : List (String × Json)} (hkeys : (Entries.keys es).Nodup)
    (hinputs : ∀ x ∈ Entries.keys es, x ∈ inputs.keys) (s : Store) :
    ∃ s', seedFrom inputs s es = .ok s' ∧
      (∀ name i r, inputs.find? name = some i → r ∈ i.registers →
        s'.find? r = (Entries.find? name es).or (s.find? r)) ∧
      ∀ r, r ∉ Surface.registers inputs → s'.find? r = s.find? r := by
  induction es generalizing s with
  | nil => exact ⟨s, rfl, by simp, fun r _ => rfl⟩
  | cons e es ih =>
      obtain ⟨x, value⟩ := e
      obtain ⟨hx, hkeys⟩ := List.nodup_cons.1 hkeys
      obtain ⟨hown, hinputs⟩ := List.forall_mem_cons.1 hinputs
      obtain ⟨input, hinput⟩ := OrderedMap.mem_keys_iff.1 hown
      obtain ⟨s', hs', howned, hothers⟩ := ih hkeys hinputs (s.setAll input.registers value)
      refine ⟨s', by rw [seedFrom, hinput]; exact hs', ?_, ?_⟩
      · intro name i r hi hr
        rw [howned name i r hi hr, find?_setAll, Entries.find?_cons]
        by_cases hname : x = name
        · subst hname
          obtain rfl : input = i := Option.some.inj (hinput.symm.trans hi)
          rw [Entries.find?_eq_none_iff.2 hx, if_pos hr, if_pos rfl]
          rfl
        · have hother : r ∉ input.registers := by
            intro hr'
            exact hname (Surface.name_eq_of_mem_registers hnodup hinput hi hr' hr)
          rw [if_neg hother, if_neg hname]
      · intro r hr
        rw [hothers r hr, find?_setAll, if_neg]
        intro hr'
        exact hr (Surface.mem_registers_iff.2 ⟨x, input, hinput, hr'⟩)

/-- Where no register has two owners, each register that an input owns holds the parameter of the
input, and all others are empty. -/
theorem exists_seed {inputs : InputMap} {params : Params}
    (hnodup : (Surface.registers inputs).Nodup)
    (hparams : ∀ x ∈ params.keys, x ∈ inputs.keys) :
    ∃ s, seed inputs params = .ok s ∧
      (∀ name i r, inputs.find? name = some i → r ∈ i.registers →
        s.find? r = params.find? name) ∧
      ∀ r, r ∉ Surface.registers inputs → s.find? r = none := by
  obtain ⟨s, hseed, howned, hothers⟩ := exists_seedFrom hnodup params.nodup_keys hparams .empty
  refine ⟨s, hseed, ?_, hothers⟩
  intro name i r hi hr
  rw [howned name i r hi hr, OrderedMap.find?_empty, Option.or_none]
  rfl

end Store

/-! ## What a stage writes -/

section

variable {p : Nat → Prop} [DecidablePred p]

/-- The value at the last of the places from `k` on with the property. -/
def lastFrom (p : Nat → Prop) [DecidablePred p] (k : Nat) (values : List Json) : Option Json :=
  ((values.zipIdx k).filter fun e => p e.2).getLast?.map Prod.fst

theorem lastWhere_eq_lastFrom (values : List Json) : lastWhere p values = lastFrom p 0 values := rfl

theorem lastFrom_cons (k : Nat) (value : Json) (values : List Json) :
    lastFrom p k (value :: values) =
      (lastFrom p (k + 1) values).or (if p k then some value else none) := by
  rw [lastFrom, List.zipIdx_cons]
  by_cases hk : p k
  · rw [List.filter_cons_of_pos (by simpa using hk), List.getLast?_cons, lastFrom, if_pos hk]
    cases ((values.zipIdx (k + 1)).filter fun e => p e.2).getLast? with
    | none => rfl
    | some e => rfl
  · rw [List.filter_cons_of_neg (by simpa using hk), if_neg hk, Option.or_none, lastFrom]

theorem lastFrom_eq_none (k : Nat) {values : List Json} (h : ∀ j, ¬ p (k + j)) :
    lastFrom p k values = none := by
  induction values generalizing k with
  | nil => rfl
  | cons value values ih =>
      have hk : ¬ p k := h 0
      have hrest : ∀ j, ¬ p (k + 1 + j) := by
        intro j
        rw [Nat.add_assoc, Nat.add_comm 1]
        exact h (j + 1)
      rw [lastFrom_cons, if_neg hk, ih (k + 1) hrest]
      rfl

theorem Plan.Stage.find?_write {r : Register} (outputs : List (List Register))
    (values : List Json) (s : Store) (k : Nat)
    (h : ∀ j, p (k + j) ↔ ∃ registers, outputs[j]? = some registers ∧ r ∈ registers) :
    (write outputs values s).find? r = (lastFrom p k values).or (s.find? r) := by
  induction outputs generalizing values s k with
  | nil =>
      have hnone : lastFrom p k values = none := lastFrom_eq_none k (by simpa using h)
      cases values <;> simp [write, hnone]
  | cons registers outputs ih =>
      cases values with
      | nil => simp [write, lastFrom]
      | cons value values =>
          have hk : p k ↔ r ∈ registers := by simpa using h 0
          have hrest : ∀ j, p (k + 1 + j) ↔
              ∃ registers, outputs[j]? = some registers ∧ r ∈ registers := by
            intro j
            rw [Nat.add_assoc, Nat.add_comm 1]
            exact h (j + 1)
          rw [write, ih values _ (k + 1) hrest, Store.find?_setAll, lastFrom_cons, Option.or_assoc]
          by_cases hr : r ∈ registers
          · rw [if_pos hr, if_pos (hk.2 hr)]
            rfl
          · rw [if_neg hr, if_neg (mt hk.1 hr)]
            rfl

end

/-- A register that a stage does not write to keeps what it holds. -/
theorem Plan.Stage.find?_write_of_not_mem {r : Register} {outputs : List (List Register)}
    (h : ∀ registers ∈ outputs, r ∉ registers) (values : List Json) (s : Store) :
    (write outputs values s).find? r = s.find? r := by
  have hnone : ∀ j : Nat, False ↔ ∃ registers, outputs[j]? = some registers ∧ r ∈ registers := by
    intro j
    refine ⟨False.elim, ?_⟩
    rintro ⟨registers, hregisters, hr⟩
    exact h registers (List.mem_of_getElem? hregisters) hr
  rw [@Plan.Stage.find?_write (fun _ => False) (fun _ => instDecidableFalse) r outputs values s 0
    hnone, lastFrom_eq_none 0 fun _ => id]
  rfl

end StepGraph
