import Mathlib.Data.List.Flatten
import StepGraph.Proofs.Artifact.Agreement
import StepGraph.Proofs.Pipeline

/-!
# Seeding fills the registers of the supplied inputs

The parameters of a run are written to the registers of their inputs in some order. On the surface
of a compiled graph, whatever has been merged and renamed on it, no register has two owners, so no
parameter is written over another and the order shows nowhere: `Store.Holds` says which registers
are filled and with what, in terms of the surface and the parameters alone.
-/

namespace StepGraph

namespace Store

variable {inputs : InputMap} {params : Params} {visited : List (String × Json)} {s s' : Store}

/-- The inputs of a surface that there is a parameter for. -/
def suppliedInputs (inputs : InputMap) (params : Params) : List Input :=
  (inputs.entries.filter fun e => params.contains e.1).map Prod.snd

/-- Every register of a supplied input holds the parameter of the input, all other registers are
empty, and so the store has as many values as the supplied inputs have registers. -/
structure Holds (s : Store) (inputs : InputMap) (params : Params) : Prop where
  find?_eq_some_iff : ∀ r value, s.find? r = some value ↔
    ∃ name i, inputs.find? name = some i ∧ r ∈ i.registers ∧ params.find? name = some value
  size_eq : s.size = ((suppliedInputs inputs params).flatMap Input.registers).length

theorem Holds.agrees (h : s.Holds inputs params) (h' : s'.Holds inputs params) : s.Agrees s' := by
  intro r
  apply Option.ext
  intro value
  rw [h.find?_eq_some_iff, h'.find?_eq_some_iff]

theorem mem_suppliedInputs {i : Input} :
    i ∈ suppliedInputs inputs params ↔
      ∃ name, inputs.find? name = some i ∧ name ∈ params.keys := by
  simp only [suppliedInputs, List.mem_map, List.mem_filter, OrderedMap.contains_iff_mem_keys,
    OrderedMap.find?_eq_some_iff]
  constructor
  · rintro ⟨⟨name, j⟩, ⟨hj, hname⟩, rfl⟩
    exact ⟨name, hj, hname⟩
  · rintro ⟨name, hi, hname⟩
    exact ⟨(name, i), ⟨hi, hname⟩, rfl⟩

theorem nodup_registers_suppliedInputs (hnodup : (Surface.registers inputs).Nodup)
    (params : Params) : ((suppliedInputs inputs params).flatMap Input.registers).Nodup := by
  have hsublist : (suppliedInputs inputs params).Sublist inputs.values :=
    List.filter_sublist.map Prod.snd
  exact hnodup.sublist (hsublist.flatMap Input.registers)

/-- The number of filled registers is counted by the inputs that own them. -/
theorem size_eq_of_find?_eq_some_iff (hnodup : (Surface.registers inputs).Nodup)
    (h : ∀ r value, s.find? r = some value ↔
      ∃ name i, inputs.find? name = some i ∧ r ∈ i.registers ∧ params.find? name = some value) :
    s.size = ((suppliedInputs inputs params).flatMap Input.registers).length := by
  have hmem : ∀ r, r ∈ s.keys ↔ r ∈ (suppliedInputs inputs params).flatMap Input.registers := by
    intro r
    simp only [OrderedMap.mem_keys_iff, h, List.mem_flatMap, mem_suppliedInputs]
    constructor
    · rintro ⟨value, name, i, hi, hr, hvalue⟩
      exact ⟨i, ⟨name, hi, value, hvalue⟩, hr⟩
    · rintro ⟨i, ⟨name, hi, value, hvalue⟩, hr⟩
      exact ⟨value, name, i, hi, hr, hvalue⟩
  have hperm : s.keys.Perm ((suppliedInputs inputs params).flatMap Input.registers) :=
    (List.perm_ext_iff_of_nodup s.nodup_keys (nodup_registers_suppliedInputs hnodup params)).2 hmem
  calc s.size = s.keys.length := (List.length_map Prod.fst).symm
    _ = ((suppliedInputs inputs params).flatMap Input.registers).length := hperm.length_eq

theorem keys_perm_of_visited (hvisited : visited.Perm params.entries) :
    (Entries.keys visited).Perm params.keys :=
  hvisited.map Prod.fst

theorem nodup_keys_of_visited (hvisited : visited.Perm params.entries) :
    (Entries.keys visited).Nodup :=
  (keys_perm_of_visited hvisited).nodup_iff.2 params.nodup_keys

theorem find?_of_visited (hvisited : visited.Perm params.entries) (name : String) :
    Entries.find? name visited = params.find? name := by
  apply Option.ext
  intro value
  rw [Entries.find?_eq_some_iff (nodup_keys_of_visited hvisited), OrderedMap.find?_eq_some_iff,
    hvisited.mem_iff]

/-- A filled register has an owner, because those without one stay empty. -/
theorem find?_eq_some_iff_of_owned
    (howned : ∀ name i r, inputs.find? name = some i → r ∈ i.registers →
      s.find? r = params.find? name)
    (hothers : ∀ r, r ∉ Surface.registers inputs → s.find? r = none) (r : Register) (value : Json) :
    s.find? r = some value ↔
      ∃ name i, inputs.find? name = some i ∧ r ∈ i.registers ∧ params.find? name = some value := by
  constructor
  · intro hvalue
    have hr : r ∈ Surface.registers inputs := by
      by_contra hr
      rw [hothers r hr] at hvalue
      cases hvalue
    obtain ⟨name, i, hi, hr⟩ := Surface.mem_registers_iff.1 hr
    exact ⟨name, i, hi, hr, (howned name i r hi hr).symm.trans hvalue⟩
  · rintro ⟨name, i, hi, hr, hvalue⟩
    exact (howned name i r hi hr).trans hvalue

/-- Parameters that are all for inputs of the surface are held by the store, in whatever order they
are visited. -/
theorem exists_holds (hnodup : (Surface.registers inputs).Nodup)
    (hvisited : visited.Perm params.entries) (hparams : ∀ x ∈ params.keys, x ∈ inputs.keys) :
    ∃ s, seedFrom inputs .empty visited = .ok s ∧ s.Holds inputs params := by
  have hknown : ∀ x ∈ Entries.keys visited, x ∈ inputs.keys := fun x hx =>
    hparams x ((keys_perm_of_visited hvisited).mem_iff.1 hx)
  obtain ⟨s, hs, howned, hothers⟩ :=
    exists_seedFrom hnodup (nodup_keys_of_visited hvisited) hknown .empty
  have hholds : ∀ r value, s.find? r = some value ↔
      ∃ name i, inputs.find? name = some i ∧ r ∈ i.registers ∧
        params.find? name = some value := by
    apply find?_eq_some_iff_of_owned _ hothers
    intro name i r hi hr
    rw [howned name i r hi hr, find?_of_visited hvisited, OrderedMap.find?_empty, Option.or_none]
  exact ⟨s, hs, hholds, size_eq_of_find?_eq_some_iff hnodup hholds⟩

/-- Some parameter without an input is reported, in whatever order the parameters are visited. -/
theorem exists_unexpected_of_seedFrom_eq_error (hvisited : visited.Perm params.entries)
    {e : RunError} (h : seedFrom inputs s visited = .error e) :
    ∃ x ∈ params.keys, x ∉ inputs.keys ∧ e = .unexpectedParameter x := by
  obtain ⟨x, hx, rfl⟩ := seedFrom_eq_error_iff.1 h
  have hunknown : x ∉ inputs.keys := by simpa using List.find?_some hx
  exact ⟨x, (keys_perm_of_visited hvisited).mem_iff.1 (List.mem_of_find?_eq_some hx), hunknown, rfl⟩

end Store

namespace Plan

/-- On the surface of a compiled graph, whatever has been merged and renamed on it, parameters are
refused exactly if one of them is for no input, and one of these is reported. Otherwise the store
holds the parameters, each at the registers that its input owns, and no other values. This is so in
whatever order the parameters are visited, and every order fills the registers in the same way. -/
theorem compiled_seeding_exact (start : Register) (catalog : Catalog) (g : Graph)
    (options : ExportOptions) (p : Plan) (h : compileFrom start catalog g options = .ok p)
    (rs : List Reshaping) (params : Params) (visited : List (String × Json))
    (hvisited : visited.Perm params.entries) :
    ((∃ e, Store.seedFrom (p.reshapeAll rs).inputs .empty visited = .error e) ↔
        ∃ x ∈ params.keys, x ∉ (p.reshapeAll rs).inputs.keys) ∧
      (∀ e, Store.seedFrom (p.reshapeAll rs).inputs .empty visited = .error e →
        ∃ x ∈ params.keys, x ∉ (p.reshapeAll rs).inputs.keys ∧ e = .unexpectedParameter x) ∧
      (∀ s, Store.seedFrom (p.reshapeAll rs).inputs .empty visited = .ok s →
        s.Holds (p.reshapeAll rs).inputs params) ∧
      ∀ s, Store.seed (p.reshapeAll rs).inputs params = .ok s →
        ∃ s', Store.seedFrom (p.reshapeAll rs).inputs .empty visited = .ok s' ∧ s'.Agrees s := by
  have hnodup := (compiled_pipelined start catalog g options p h rs).nodup
  generalize (p.reshapeAll rs).inputs = inputs at hnodup ⊢
  have hkeys := Store.keys_perm_of_visited hvisited
  have hheld : ∀ s, Store.seedFrom inputs .empty visited = .ok s → s.Holds inputs params := by
    intro s hs
    have hknown := Store.seedFrom_isOk_iff.1 ⟨s, hs⟩
    obtain ⟨s', hs', hholds⟩ :=
      Store.exists_holds hnodup hvisited fun x hx => hknown x (hkeys.mem_iff.2 hx)
    rwa [Except.ok.inj (hs.symm.trans hs')]
  refine ⟨⟨?_, ?_⟩, fun e => Store.exists_unexpected_of_seedFrom_eq_error hvisited, hheld, ?_⟩
  · rintro ⟨e, he⟩
    obtain ⟨x, hx, hunknown, -⟩ := Store.exists_unexpected_of_seedFrom_eq_error hvisited he
    exact ⟨x, hx, hunknown⟩
  · rintro ⟨x, hx, hunknown⟩
    cases hs : Store.seedFrom inputs .empty visited with
    | error e => exact ⟨e, rfl⟩
    | ok s => exact absurd (Store.seedFrom_isOk_iff.1 ⟨s, hs⟩ x (hkeys.mem_iff.2 hx)) hunknown
  · intro s hs
    have hknown := Store.seed_isOk_iff.1 ⟨s, hs⟩
    obtain ⟨s', hs', hholds'⟩ := Store.exists_holds hnodup hvisited hknown
    obtain ⟨t, ht, hholds⟩ := Store.exists_holds hnodup (.refl params.entries) hknown
    obtain rfl : s = t := Except.ok.inj (hs.symm.trans ht)
    exact ⟨s', hs', hholds'.agrees hholds⟩

/-- A value for both relays and one for what all relays share, the second one visited first. -/
def relayValues : Params := .ofList [("start", .string "both"), ("context", .string "all")]

theorem relays_seeding_exact :
    ∃ p, compileFrom .first relayCatalog relayGraph .default = .ok p ∧
      relayValues.entries.reverse.Perm relayValues.entries ∧
      ∃ s, Store.seedFrom (p.reshapeAll relayReshapings).inputs .empty relayValues.entries.reverse =
          .ok s ∧
        s.Holds (p.reshapeAll relayReshapings).inputs relayValues ∧
        s.entries = [(⟨2⟩, .string "all"), (⟨3⟩, .string "both"), (⟨4⟩, .string "both")] := by
  have hvisited : relayValues.entries.reverse.Perm relayValues.entries := List.reverse_perm _
  obtain ⟨-, -, hheld, -⟩ := compiled_seeding_exact .first relayCatalog relayGraph .default _ rfl
    relayReshapings relayValues relayValues.entries.reverse hvisited
  exact ⟨_, rfl, hvisited, _, rfl, hheld _ rfl, rfl⟩

end Plan

end StepGraph
