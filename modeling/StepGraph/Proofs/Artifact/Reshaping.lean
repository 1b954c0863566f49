import StepGraph.Proofs.Artifact.Agreement
import StepGraph.Proofs.Pipeline

/-!
# Merges and renamings only reshape the surface

After merges and renamings every input of a compiled graph lives on in one input of the new surface,
the one that owns its register now. Parameters for the new surface say what the old inputs get: each
the value of the input it lives on in, and none if that has none. `Plan.pullBack` collects these
values. With them the compiled graph does what the reshaped one does with the parameters, because
they fill the registers in the same way.
-/

namespace StepGraph

namespace Plan

/-- The input exported under the name owns the registers of the other input. -/
def TakesOver (p : Plan) (owner : String) (i : Input) : Prop := ∀ r ∈ i.registers, p.Owns owner r

/-- The name of the first input that has the registers of the other input. -/
def owner? (p : Plan) (i : Input) : Option String :=
  (p.inputs.entries.find? fun e => i.registers.all fun r => e.2.registers.contains r).map Prod.fst

/-- The parameters `original` are for inputs of `p` only, and each of these has the value that
`params` has for the input of `p'` that takes it over, or none if that has none. -/
structure Inherits (p p' : Plan) (params original : Params) : Prop where
  keys : ∀ x ∈ original.keys, x ∈ p.inputs.keys
  find? : ∀ x i, p.inputs.find? x = some i → ∀ owner, p'.TakesOver owner i →
    original.find? x = params.find? owner

/-- What parameters for `p'` say for the inputs of `p`. -/
def pullBack (p p' : Plan) (params : Params) : Params :=
  p.inputs.filterMap fun _ i => (p'.owner? i).bind params.find?

variable {p p' : Plan} {params : Params} {i : Input} {r : Register} {x owner : String}

theorem takesOver_iff (hone : i.registers = [r]) : p.TakesOver owner i ↔ p.Owns owner r := by
  simp [TakesOver, hone]

theorem owner?_eq_some_iff (hnodup : (Surface.registers p.inputs).Nodup)
    (hone : i.registers = [r]) : p.owner? i = some owner ↔ p.Owns owner r := by
  have hfound : ∀ {e}, p.inputs.entries.find?
      (fun e => i.registers.all fun r => e.2.registers.contains r) = some e → p.Owns e.1 r := by
    intro e he
    have hr := List.find?_some he
    refine ⟨e.2, OrderedMap.find?_eq_some_iff.2 (List.mem_of_find?_eq_some he), ?_⟩
    simpa [hone] using hr
  rw [owner?]
  constructor
  · intro h
    obtain ⟨e, he, rfl⟩ := Option.map_eq_some_iff.1 h
    exact hfound he
  · intro h
    have hmem : r ∈ Surface.registers p.inputs := exists_owns_iff.1 ⟨owner, h⟩
    obtain ⟨j, hj, hr⟩ := h
    obtain ⟨e, he⟩ : ∃ e, p.inputs.entries.find?
        (fun e => i.registers.all fun r => e.2.registers.contains r) = some e := by
      refine Option.isSome_iff_exists.1 (List.find?_isSome.2 ⟨(owner, j), ?_, ?_⟩)
      · exact OrderedMap.find?_eq_some_iff.1 hj
      · simpa [hone] using hr
    obtain ⟨name, -, hunique⟩ := existsUnique_owns hnodup hmem
    rw [he, Option.map_some, hunique e.1 (hfound he), hunique owner ⟨j, hj, hr⟩]

section

variable (hone : ∀ x i, p.inputs.find? x = some i → i.registers = [i.register])
  (hnodup : (Surface.registers p.inputs).Nodup) (hkeeps : Surface.Keeps p.inputs p'.inputs)

include hone hnodup hkeeps

/-- Every input lives on in one input of the new surface. -/
theorem existsUnique_takesOver (hi : p.inputs.find? x = some i) :
    ∃! owner, p'.TakesOver owner i := by
  have hmem : i.register ∈ Surface.registers p'.inputs := by
    refine hkeeps.perm.mem_iff.2 (exists_owns_iff.1 ⟨x, i, hi, ?_⟩)
    simp [hone x i hi]
  simp only [takesOver_iff (hone x i hi)]
  exact existsUnique_owns (hkeeps.perm.nodup_iff.2 hnodup) hmem

theorem inherits_pullBack (params : Params) : p.Inherits p' params (p.pullBack p' params) := by
  refine ⟨fun x hx => OrderedMap.mem_keys_of_mem_keys_filterMap hx, ?_⟩
  intro x i hi owner howner
  rw [takesOver_iff (hone x i hi)] at howner
  have hfound : p'.owner? i = some owner :=
    (owner?_eq_some_iff (hkeeps.perm.nodup_iff.2 hnodup) (hone x i hi)).2 howner
  rw [pullBack, OrderedMap.find?_filterMap, hi, Option.bind_some, hfound, Option.bind_some]

/-- Parameters and what they say for the old inputs fill the registers in the same way. -/
theorem exists_seeds_of_inherits {original : Params}
    (hparams : ∀ x ∈ params.keys, x ∈ p'.inputs.keys) (h : p.Inherits p' params original) :
    ∃ s s', Store.seed p.inputs original = .ok s ∧ Store.seed p'.inputs params = .ok s' ∧
      s'.Agrees s := by
  obtain ⟨s, hs, howned, hothers⟩ := Store.exists_seed hnodup h.keys
  obtain ⟨s', hs', howned', hothers'⟩ :=
    Store.exists_seed (hkeeps.perm.nodup_iff.2 hnodup) hparams
  refine ⟨s, s', hs, hs', fun r => ?_⟩
  by_cases hr : r ∈ Surface.registers p.inputs
  · obtain ⟨x, i, hi, hri⟩ := exists_owns_iff.2 hr
    obtain ⟨owner, j, hj, hrj⟩ := exists_owns_iff.2 (hkeeps.perm.mem_iff.2 hr)
    have hir : i.registers = [r] := by
      rw [hone x i hi] at hri ⊢
      rw [List.mem_singleton.1 hri]
    rw [howned x i r hi hri, howned' owner j r hj hrj]
    exact (h.find? x i hi owner ((takesOver_iff hir).2 ⟨j, hj, hrj⟩)).symm
  · rw [hothers r hr, hothers' r (mt hkeeps.perm.mem_iff.1 hr)]

end

theorem NodeGraph.Compiles.registers_eq_singleton {catalog : Catalog} {g : Graph}
    {ng : NodeGraph} {options : ExportOptions} {order : List Nat}
    (h : ng.Compiles g options order p) (hrepresents : ng.Represents catalog g)
    (hi : p.inputs.find? x = some i) : i.registers = [i.register] := by
  have hmem : i ∈ p.inputs.values := List.mem_map_of_mem (OrderedMap.find?_eq_some_iff.1 hi)
  rw [h.values_inputs] at hmem
  exact hrepresents.inputs.1 i (mem_ownedInputs_of_surface hmem)

/-- However the inputs of a compiled graph are merged and renamed, each of them lives on in one
input of the new surface, and with any parameters for that surface the reshaped artifact runs,
checks and names itself as the artifact of the compiled graph does with what they say for its own
inputs. -/
theorem reshapeAll_runs_eq (start : Register) (catalog : Catalog) (g : Graph)
    (options : ExportOptions) (p : Plan) (h : compileFrom start catalog g options = .ok p)
    (rs : List Reshaping) (params : Params)
    (hparams : ∀ x ∈ params.keys, x ∈ (p.reshapeAll rs).inputs.keys) :
    (∀ x i, p.inputs.find? x = some i → ∃! owner, (p.reshapeAll rs).TakesOver owner i) ∧
      p.Inherits (p.reshapeAll rs) params (p.pullBack (p.reshapeAll rs) params) ∧
      ∀ (a a' : Artifact) (original : Params), a.plan = p → a'.plan = p.reshapeAll rs →
        p.Inherits (p.reshapeAll rs) params original →
          a'.process params = a.process original ∧ a'.validate params = a.validate original ∧
            a'.fingerprint params = a.fingerprint original := by
  obtain ⟨ng, order, -, hrepresents, hcompiles⟩ := compiles_of_compileFrom_eq_ok h
  obtain ⟨hstages, houtputs, hkeeps⟩ := p.reshapeAll_keeps rs
  have hone : ∀ x i, p.inputs.find? x = some i → i.registers = [i.register] :=
    fun x i hi => hcompiles.registers_eq_singleton hrepresents hi
  have hnodup := hcompiles.nodup_registers hrepresents
  refine ⟨fun x i hi => existsUnique_takesOver hone hnodup hkeeps hi,
    inherits_pullBack hone hnodup hkeeps params, ?_⟩
  rintro a a' original rfl ha' hinherits
  obtain ⟨s, s', hs, hs', hagrees⟩ :=
    exists_seeds_of_inherits hone hnodup hkeeps hparams hinherits
  rw [← ha'] at hstages houtputs hs'
  exact Artifact.runs_eq_of_agrees hstages houtputs hs hs' hagrees

/-- One value for the merged input, which goes to both relays that have none. -/
theorem relays_reshapeAll_runs_eq :
    ∃ p, compileFrom .first relayCatalog relayGraph .default = .ok p ∧
      (∀ x ∈ (OrderedMap.ofList [("start", Json.string "both")]).keys,
        x ∈ (p.reshapeAll relayReshapings).inputs.keys) ∧
      (Artifact.ofPlan "reshaped" (p.reshapeAll relayReshapings)).process
          (.ofList [("start", .string "both")]) =
        (Artifact.ofPlan "relays" p).process
          (.ofList [("value", .string "both"), ("value_2", .string "both")]) ∧
      (Artifact.ofPlan "relays" p).process
          (.ofList [("value", .string "both"), ("value_2", .string "both")]) =
        pure ⟨[.string "both", .string "both"], .empty⟩ := by
  have hparams : ∀ x ∈ (OrderedMap.ofList [("start", Json.string "both")]).keys,
      x ∈ ["context", "start"] := by decide
  obtain ⟨-, hinherits, hruns⟩ := reshapeAll_runs_eq .first relayCatalog relayGraph .default _ rfl
    relayReshapings _ hparams
  exact ⟨_, rfl, hparams, (hruns _ _ _ rfl rfl hinherits).1, rfl⟩

end Plan

end StepGraph
