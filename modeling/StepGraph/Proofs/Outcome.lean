import StepGraph.Step.Run

/-!
# Outcomes of steps that follow each other

A chain of steps that may fail succeeds exactly if every step does, which `Except.bind_eq_ok_iff`
says for one link of the chain.
-/

namespace StepGraph

universe u

theorem Except.bind_eq_ok_iff {ε α β : Type u} {x : Except ε α} {f : α → Except ε β} {b : β} :
    (x >>= f) = .ok b ↔ ∃ a, x = .ok a ∧ f a = .ok b := by
  cases x with
  | error e => simp [bind, Except.bind]
  | ok a => simp [bind, Except.bind]

theorem Except.bind_eq_error_iff {ε α β : Type u} {x : Except ε α} {f : α → Except ε β} {e : ε} :
    (x >>= f) = .error e ↔ x = .error e ∨ ∃ a, x = .ok a ∧ f a = .error e := by
  cases x with
  | error e => simp [bind, Except.bind]
  | ok a => simp [bind, Except.bind]

theorem Except.ok_bind {ε α β : Type u} (a : α) (f : α → Except ε β) : (.ok a >>= f) = f a := rfl

@[simp] theorem Except.mapError_ok {ε ε' α : Type u} (f : ε → ε') (a : α) :
    (Except.ok a).mapError f = .ok a := rfl

@[simp] theorem Except.mapError_error {ε ε' α : Type u} (f : ε → ε') (e : ε) :
    (Except.error e : Except ε α).mapError f = .error (f e) := rfl

theorem Except.mapError_eq_ok_iff {ε ε' α : Type u} {x : Except ε α} {f : ε → ε'} {a : α} :
    x.mapError f = .ok a ↔ x = .ok a := by
  cases x with
  | error e => simp
  | ok b => simp

theorem Except.mapError_eq_error_iff {ε ε' α : Type u} {x : Except ε α} {f : ε → ε'} {e : ε'} :
    x.mapError f = .error e ↔ ∃ cause, x = .error cause ∧ e = f cause := by
  cases x with
  | error e' => simp [eq_comm]
  | ok b => simp

/-- What commutes with the second step after the first one commutes with both. -/
theorem Except.map_bind_of {ε α α' β β' : Type} {x : Except ε α} {h : α → α'}
    {k : α → Except ε β} {k' : α' → Except ε β'} {h' : β → β'}
    (hk : ∀ a, x = .ok a → k' (h a) = (k a).map h') :
    (x.map h >>= k') = (x >>= k).map h' := by
  cases x with
  | error e => rfl
  | ok a => exact hk a rfl

theorem Except.eq_ok_of_toOption {ε α : Type u} {x : Except ε α} {a : α}
    (h : x.toOption = some a) : x = .ok a := by
  cases x with
  | error e => cases h
  | ok b => exact congrArg Except.ok (Option.some.inj h)

namespace Run

variable {α α' β β' : Type}

theorem ofExcept_ok (a : α) : ofExcept (.ok a) = pure a := rfl

theorem outcome_bind_eq_ok_iff {x : Run α} {f : α → Run β} {b : β} :
    (x >>= f).outcome = .ok b ↔ ∃ a, x.outcome = .ok a ∧ (f a).outcome = .ok b := by
  obtain ⟨calls, outcome⟩ := x
  cases outcome with
  | error e => simp [Bind.bind, Run.bind]
  | ok a => simp [Bind.bind, Run.bind]

theorem outcome_bind_eq_error_iff {x : Run α} {f : α → Run β} {e : RunError} :
    (x >>= f).outcome = .error e ↔
      x.outcome = .error e ∨ ∃ a, x.outcome = .ok a ∧ (f a).outcome = .error e := by
  obtain ⟨calls, outcome⟩ := x
  cases outcome with
  | error e' => simp [Bind.bind, Run.bind]
  | ok a => simp [Bind.bind, Run.bind]

theorem outcome_bind_of_ok {x : Run α} {f : α → Run β} {a : α} (h : x.outcome = .ok a) :
    (x >>= f).outcome = (f a).outcome := by
  obtain ⟨calls, outcome⟩ := x
  cases h
  rfl

theorem outcome_bind_of_error {x : Run α} {f : α → Run β} {e : RunError}
    (h : x.outcome = .error e) : (x >>= f).outcome = .error e := by
  obtain ⟨calls, outcome⟩ := x
  cases h
  rfl

theorem outcome_bind_pure (x : Run α) (f : α → β) :
    (x >>= fun a => pure (f a)).outcome = x.outcome.map f := by
  obtain ⟨calls, outcome⟩ := x
  cases outcome <;> rfl

theorem mem_calls_bind {x : Run α} {f : α → Run β} {c : HookCall} (h : c ∈ (x >>= f).calls) :
    c ∈ x.calls ∨ ∃ a, c ∈ (f a).calls := by
  obtain ⟨calls, outcome⟩ := x
  cases outcome with
  | error e => exact Or.inl h
  | ok a => exact (List.mem_append.1 h).imp_right fun h => ⟨a, h⟩

/-! ## Runs without their values -/

/-- The run without the value it gives. -/
def void (r : Run α) : Run Unit := ⟨r.calls, r.outcome.map fun _ => ()⟩

theorem outcome_void_eq_error_iff {r : Run α} {e : RunError} :
    r.void.outcome = .error e ↔ r.outcome = .error e := by
  obtain ⟨calls, outcome⟩ := r
  cases outcome <;> simp [void, Except.map]

theorem void_bind_of_ok {x : Run α} {f : α → Run β} {a : α}
    (h : x.outcome = .ok a) : (x >>= f).void = x.void >>= fun _ => (f a).void := by
  obtain ⟨calls, outcome⟩ := x
  cases h
  rfl

theorem void_bind_of_error {x : Run α} {f : α → Run β} {e : RunError}
    (h : x.outcome = .error e) (f' : Unit → Run Unit) : (x >>= f).void = x.void >>= f' := by
  obtain ⟨calls, outcome⟩ := x
  cases h
  rfl

theorem void_bind_pure (x : Run α) (f : α → β) :
    (x >>= fun a => pure (f a)).void = x.void := by
  obtain ⟨calls, outcome⟩ := x
  cases outcome with
  | error e => rfl
  | ok a => exact congrArg (Run.mk · (.ok ())) (List.append_nil calls)

theorem calls_bind_of_nil {x : Run α} {f : α → Run β}
    (h : ∀ a, (f a).calls = []) : (x >>= f).calls = x.calls := by
  obtain ⟨calls, outcome⟩ := x
  cases outcome with
  | error e => rfl
  | ok a =>
      have happend : (Run.mk calls (.ok a) >>= f).calls = calls ++ (f a).calls := rfl
      rw [happend, h, List.append_nil]

theorem void_mapError (f : RunError → RunError) (x : Run α) :
    (x.mapError f).void = x.void.mapError f := by
  obtain ⟨calls, outcome⟩ := x
  cases outcome <;> rfl

/-! ## Runs that match -/

/-- Two runs make the same calls, and they end with the same error or with values that `r`
relates. -/
inductive Matches (r : α → α' → Prop) : Run α → Run α' → Prop
  | ok {calls : List HookCall} {a : α} {a' : α'} (h : r a a') :
    Matches r ⟨calls, .ok a⟩ ⟨calls, .ok a'⟩
  | error {calls : List HookCall} {e : RunError} : Matches r ⟨calls, .error e⟩ ⟨calls, .error e⟩

theorem Matches.refl (x : Run α) : Matches Eq x x := by
  obtain ⟨calls, outcome⟩ := x
  cases outcome with
  | ok a => exact .ok rfl
  | error e => exact .error

theorem Matches.eq {x x' : Run α} (h : Matches Eq x x') : x = x' := by
  cases h with
  | ok h => rw [h]
  | error => rfl

/-- Runs that go on in the same way match. -/
theorem Matches.bind {r : α → α' → Prop} {s : β → β' → Prop} {x : Run α} {x' : Run α'}
    {f : α → Run β} {f' : α' → Run β'} (h : Matches r x x')
    (hf : ∀ a a', r a a' → Matches s (f a) (f' a')) : Matches s (x >>= f) (x' >>= f') := by
  cases h with
  | @ok calls a a' h =>
      have hrest := hf a a' h
      simp only [Bind.bind, Run.bind]
      generalize f a = y at hrest ⊢
      generalize f' a' = y' at hrest ⊢
      cases hrest with
      | ok h => exact .ok h
      | error => exact .error
  | error => exact .error

end Run

end StepGraph
