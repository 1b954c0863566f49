import StepGraph.Proofs.Artifact.Reshaping
import StepGraph.Proofs.Renumbering.Compilation

/-!
# What registers are numbered from does not matter

Merging and renaming inputs commutes with renumbering, and warns of the same. A renumbered artifact
holds in the register `f r` what the artifact holds in `r`, so it runs, checks and fingerprints its
parameters alike; as a step it is the same.

Compiling a graph from another first register on renumbers it by the distance of the first
registers. So nothing that a caller can see depends on how many registers were taken before.
-/

namespace StepGraph

open Plan

variable {f : Register → Register}

/-! ## Merging and renaming inputs -/

namespace Surface

theorem mergeSource_renumber (target targetType source : String) (r : Reshaped) :
    mergeSource target targetType (Prod.map (renumber f) id r) source =
      Prod.map (renumber f) id (mergeSource target targetType r source) := by
  obtain ⟨m, warnings⟩ := r
  have hfind : (renumber f m).find? source = (m.find? source).map (Input.renumber f) :=
    OrderedMap.find?_mapValues _ m source
  simp only [mergeSource, Prod.map, hfind]
  split
  · rfl
  · cases hsource : m.find? source with
    | none => rfl
    | some merged =>
        have htypeTag : (merged.renumber f).typeTag = merged.typeTag := rfl
        have hupdate : ((m.erase source).mapValues (Input.renumber f)).update target (fun i =>
            { i with registers := i.registers ++ merged.registers.map f }) =
              ((m.erase source).update target fun i =>
                { i with registers := i.registers ++ merged.registers }).mapValues
                  (Input.renumber f) :=
          OrderedMap.update_mapValues _ (fun i => by simp [Input.renumber]) (m.erase source) target
        simp only [Option.map_some, htypeTag]
        split
        · rfl
        · rw [renumber, OrderedMap.erase_mapValues]
          exact congrArg (·, warnings) hupdate

theorem mergeEntry_renumber (r : Reshaped) (entry : String × List String) :
    mergeEntry (Prod.map (renumber f) id r) entry =
      Prod.map (renumber f) id (mergeEntry r entry) := by
  obtain ⟨m, warnings⟩ := r
  have hfind : (renumber f m).find? entry.1 = (m.find? entry.1).map (Input.renumber f) :=
    OrderedMap.find?_mapValues _ m entry.1
  simp only [mergeEntry, Prod.map, hfind]
  cases htarget : m.find? entry.1 with
  | none => rfl
  | some target =>
      have htypeTag : (target.renumber f).typeTag = target.typeTag := rfl
      simp only [Option.map_some, htypeTag]
      exact @List.foldl_hom _ _ _ (Prod.map (renumber f) id) _ _ entry.2 (m, warnings)
        fun r source => mergeSource_renumber entry.1 target.typeTag source r

theorem merge_renumber (m : InputMap) (mapping : OrderedMap String (List String)) :
    merge (renumber f m) mapping = Prod.map (renumber f) id (merge m mapping) :=
  @List.foldl_hom _ _ _ (Prod.map (renumber f) id) _ _ mapping.entries (m, []) mergeEntry_renumber

theorem renameEntry_renumber (r : Reshaped) (entry : String × String) :
    renameEntry (Prod.map (renumber f) id r) entry =
      Prod.map (renumber f) id (renameEntry r entry) := by
  obtain ⟨m, warnings⟩ := r
  have hfind : (renumber f m).find? entry.1 = (m.find? entry.1).map (Input.renumber f) :=
    OrderedMap.find?_mapValues _ m entry.1
  have hcontains : (renumber f m).contains entry.2 = m.contains entry.2 :=
    OrderedMap.contains_mapValues _ m entry.2
  simp only [renameEntry, Prod.map, hfind, hcontains]
  cases m.find? entry.1 with
  | none => rfl
  | some input =>
      simp only [Option.map_some]
      split
      · rfl
      · rw [renumber, OrderedMap.erase_mapValues, OrderedMap.insert_mapValues]
        rfl

theorem rename_renumber (m : InputMap) (mapping : OrderedMap String String) :
    rename (renumber f m) mapping = Prod.map (renumber f) id (rename m mapping) :=
  @List.foldl_hom _ _ _ (Prod.map (renumber f) id) _ _ mapping.entries (m, []) renameEntry_renumber

end Surface

namespace Plan

/-- What a merge or a renaming warns of. -/
def reshapeWarnings (p : Plan) : Reshaping → List Surface.Warning
  | .merge mapping => (p.mergeInputs mapping).2
  | .rename mapping => (p.renameInputs mapping).2

/-- What several merges and renamings warn of, one after the other. -/
def reshapeAllWarnings (p : Plan) : List Reshaping → List Surface.Warning
  | [] => []
  | r :: rs => p.reshapeWarnings r ++ (p.reshape r).reshapeAllWarnings rs

theorem mergeInputs_renumber (p : Plan) (mapping : OrderedMap String (List String)) :
    (p.renumber f).mergeInputs mapping = Prod.map (renumber f) id (p.mergeInputs mapping) := by
  rw [mergeInputs, mergeInputs, renumber, Surface.merge_renumber]
  rfl

theorem renameInputs_renumber (p : Plan) (mapping : OrderedMap String String) :
    (p.renumber f).renameInputs mapping = Prod.map (renumber f) id (p.renameInputs mapping) := by
  rw [renameInputs, renameInputs, renumber, Surface.rename_renumber]
  rfl

theorem reshape_renumber (p : Plan) (r : Reshaping) :
    (p.renumber f).reshape r = (p.reshape r).renumber f ∧
      (p.renumber f).reshapeWarnings r = p.reshapeWarnings r := by
  cases r with
  | merge mapping =>
      rw [reshape, reshape, reshapeWarnings, reshapeWarnings, mergeInputs_renumber]
      exact ⟨rfl, rfl⟩
  | rename mapping =>
      rw [reshape, reshape, reshapeWarnings, reshapeWarnings, renameInputs_renumber]
      exact ⟨rfl, rfl⟩

theorem reshapeAll_renumber (p : Plan) (rs : List Reshaping) :
    (p.renumber f).reshapeAll rs = (p.reshapeAll rs).renumber f ∧
      (p.renumber f).reshapeAllWarnings rs = p.reshapeAllWarnings rs := by
  induction rs generalizing p with
  | nil => exact ⟨rfl, rfl⟩
  | cons r rs ih =>
      obtain ⟨hplan, hwarnings⟩ := p.reshape_renumber (f := f) r
      obtain ⟨hplans, hallWarnings⟩ := ih (p.reshape r)
      refine ⟨?_, ?_⟩
      · rw [reshapeAll, List.foldl_cons, hplan]
        exact hplans
      · rw [reshapeAllWarnings, reshapeAllWarnings, hwarnings, hplan, hallWarnings]

end Plan

/-! ## Runs -/

/-- The second register is the first one renumbered. -/
def Register.Renumbered (f : Register → Register) (r r' : Register) : Prop := r' = f r

section

variable (hf : Function.Injective f)

include hf

theorem Store.Mirrors.setAll {s s' : Store} (h : s.Mirrors (Register.Renumbered f) s')
    (registers : List Register) (value : Json) :
    (s.setAll registers value).Mirrors (Register.Renumbered f)
      (s'.setAll (registers.map f) value) := by
  induction registers generalizing s s' with
  | nil => exact h
  | cons r registers ih =>
      refine ih ?_
      rintro x _ rfl
      rw [OrderedMap.find?_insert, OrderedMap.find?_insert, h x (f x) rfl]
      simp only [hf.eq_iff]

/-- Parameters fill the renumbered registers with what they fill the registers with. -/
theorem Store.exists_seedFrom_renumber {m : InputMap} {s s' t : Store}
    {params : List (String × Json)} (h : s.Mirrors (Register.Renumbered f) s')
    (ht : seedFrom m s params = .ok t) :
    ∃ t', seedFrom (Surface.renumber f m) s' params = .ok t' ∧
      t.Mirrors (Register.Renumbered f) t' := by
  induction params generalizing s s' with
  | nil =>
      cases ht
      exact ⟨s', rfl, h⟩
  | cons e params ih =>
      obtain ⟨x, value⟩ := e
      have hfind : (Surface.renumber f m).find? x = (m.find? x).map (Input.renumber f) :=
        OrderedMap.find?_mapValues _ m x
      rw [seedFrom] at ht ⊢
      cases hx : m.find? x with
      | none =>
          rw [hx] at ht
          cases ht
      | some i =>
          rw [hx] at ht
          rw [hfind, hx]
          exact ih (h.setAll hf i.registers value) ht

theorem Plan.Stage.mirrors_renumber (g : Stage) :
    g.Mirrors (Register.Renumbered f) (g.renumber f) where
  node := rfl
  type := rfl
  step := rfl
  reads := by
    rw [renumber, OrderedMap.entries_mapValues, List.forall₂_map_right_iff]
    exact List.forall₂_same.2 fun _ _ => ⟨rfl, rfl⟩
  writes := by
    rintro r _ rfl k
    have hplace : (g.renumber f).outputs[k]? = g.outputs[k]?.map (List.map f) :=
      List.getElem?_map ..
    rw [WritesAt, WritesAt, hplace]
    simp only [Option.map_eq_some_iff]
    constructor
    · rintro ⟨registers, hregisters, hr⟩
      exact ⟨_, ⟨registers, hregisters, rfl⟩, List.mem_map_of_mem hr⟩
    · rintro ⟨_, ⟨registers, hregisters, rfl⟩, hr⟩
      exact ⟨registers, hregisters, (List.mem_map_of_injective hf).1 hr⟩

namespace Artifact

/-- An artifact with a renumbered plan does what the artifact does. -/
theorem runs_eq_of_renumber {a a' : Artifact} (h : a'.plan = a.plan.renumber f)
    (params : Params) :
    a'.process params = a.process params ∧ a'.validate params = a.validate params ∧
      a'.fingerprint params = a.fingerprint params := by
  have hinputs : a'.plan.inputs = Surface.renumber f a.plan.inputs := by rw [h]; rfl
  cases hs : Store.seed a.plan.inputs params with
  | error e =>
      have hs' : Store.seed a'.plan.inputs params = .error e := by
        refine (Store.seed_eq_error_congr fun x => ?_).1 hs
        rw [hinputs, Surface.renumber, OrderedMap.keys_mapValues]
      rw [process, process, validate, validate, fingerprint, fingerprint, hs, hs']
      trivial
  | ok s =>
      have hempty : Store.Mirrors (Register.Renumbered f) .empty .empty := fun _ _ _ => rfl
      obtain ⟨s', hs', hmirrors⟩ := Store.exists_seedFrom_renumber hf hempty hs
      rw [← hinputs] at hs'
      have hstages : List.Forall₂ (Stage.Mirrors (Register.Renumbered f)) a.plan.stages
          a'.plan.stages := by
        rw [h]
        exact List.forall₂_map_right_iff.2
          (List.forall₂_same.2 fun g _ => g.mirrors_renumber hf)
      have houtputs : List.Forall₂ (fun o o' => o.name = o'.name ∧
          Register.Renumbered f o.register o'.register) a.plan.outputs a'.plan.outputs := by
        rw [h]
        exact List.forall₂_map_right_iff.2 (List.forall₂_same.2 fun _ _ => ⟨rfl, rfl⟩)
      obtain ⟨hprocess, hvalidate, hfingerprint⟩ :=
        runs_eq_of_mirrors hstages houtputs hs hs' hmirrors
      exact ⟨hprocess.symm, hvalidate.symm, hfingerprint.symm⟩

/-- As a step, a renumbered artifact is the artifact. -/
theorem step_renumber (a : Artifact) : (a.renumber f).step = a.step := by
  have hprocess : (a.renumber f).process = a.process :=
    funext fun params => (runs_eq_of_renumber hf rfl params).1
  have hvalidate : (a.renumber f).validate = a.validate :=
    funext fun params => (runs_eq_of_renumber hf rfl params).2.1
  have hfingerprint : (a.renumber f).fingerprint = a.fingerprint :=
    funext fun params => (runs_eq_of_renumber hf rfl params).2.2
  have hschema : (a.renumber f).schema = a.schema := List.foldl_map
  rw [step, step, hprocess, hvalidate, hfingerprint, hschema]
  simp only [renumber, Plan.renumber, List.map_map, List.any_map]
  rfl

end Artifact

end

/-! ## Another first register -/

/-- The register that lies behind `start'` as far as this one lies behind `start`. -/
def Register.rebase (start start' r : Register) : Register := ⟨r.index + start'.index - start.index⟩

theorem Register.rebase_comp_advance (start start' : Register) :
    (rebase start start' ∘ fun r : Register => r.advance start.index) =
      fun r => r.advance start'.index := by
  funext r
  simp only [Function.comp_apply, rebase, advance, Register.mk.injEq]
  omega

namespace Plan

/-- The registers that a stage reads from and writes to. -/
def Stage.registers (g : Stage) : List Register := g.inputMap.values ++ g.outputs.flatten

/-- The registers of the stages, the inputs and the outputs. -/
def registers (p : Plan) : List Register :=
  p.stages.flatMap Stage.registers ++ Surface.registers p.inputs ++
    p.outputs.map ExportedOutput.register

theorem Stage.registers_renumber (g : Stage) :
    (g.renumber f).registers = g.registers.map f := by
  simp [registers, renumber, OrderedMap.values, List.map_flatten]

theorem registers_renumber (p : Plan) : (p.renumber f).registers = p.registers.map f := by
  have hinputs : Surface.registers (Surface.renumber f p.inputs) =
      (Surface.registers p.inputs).map f := by
    simp only [Surface.registers, Surface.renumber, OrderedMap.values, OrderedMap.entries_mapValues,
      List.map_map, List.flatMap_map, List.map_flatMap]
    rfl
  have hstages : (p.stages.map (Stage.renumber f)).flatMap Stage.registers =
      (p.stages.flatMap Stage.registers).map f := by
    rw [List.flatMap_map, List.map_flatMap]
    exact congrArg (List.flatMap · p.stages) (funext fun g => g.registers_renumber)
  simp only [registers, renumber, hinputs, hstages, List.map_append, List.map_map]
  rfl

/-- Every compilation is that with registers from zero on, renumbered. -/
theorem compileFrom_eq_map_advance (start : Register) (catalog : Catalog) (g : Graph)
    (options : ExportOptions) :
    compileFrom start catalog g options =
      (compileFrom ⟨0⟩ catalog g options).map (renumber fun r => r.advance start.index) := by
  have h := compileFrom_renumber (Register.renumbers_advance start.index) ⟨0⟩ catalog g options
  rwa [Register.zero_advance] at h

/-- Compiling a graph from two first registers fails with the same error, or gives compiled graphs
that are equal once every register is moved by the distance of the first ones. However their inputs
are merged and renamed, they stay so and the warnings are the same, and the reshaped artifacts run,
check and fingerprint all parameters alike. -/
theorem compileFrom_start_irrelevant (start start' : Register) (catalog : Catalog) (g : Graph)
    (options : ExportOptions) :
    compileFrom start' catalog g options =
        (compileFrom start catalog g options).map (renumber (Register.rebase start start')) ∧
    ∀ p p', compileFrom start catalog g options = .ok p →
      compileFrom start' catalog g options = .ok p' →
        (∀ r ∈ p.registers, start.index ≤ r.index) ∧
        ∀ rs, p'.reshapeAll rs = (p.reshapeAll rs).renumber (Register.rebase start start') ∧
          p'.reshapeAllWarnings rs = p.reshapeAllWarnings rs ∧
          ∀ a a' : Artifact, a.plan = p.reshapeAll rs → a'.plan = p'.reshapeAll rs →
            ∀ params, a'.process params = a.process params ∧
              a'.validate params = a.validate params ∧
              a'.fingerprint params = a.fingerprint params := by
  have hbase := compileFrom_eq_map_advance start catalog g options
  have hbase' := compileFrom_eq_map_advance start' catalog g options
  have hrebase := Register.rebase_comp_advance start start'
  cases hcompile : compileFrom ⟨0⟩ catalog g options with
  | error e =>
      rw [hbase, hbase', hcompile]
      refine ⟨rfl, fun p p' hp => ?_⟩
      cases hp
  | ok q =>
      rw [hbase, hbase', hcompile]
      refine ⟨?_, ?_⟩
      · simp only [Except.map, renumber_renumber, hrebase]
      rintro p p' hp hp'
      cases hp
      cases hp'
      refine ⟨fun r hr => ?_, fun rs => ?_⟩
      · rw [registers_renumber] at hr
        obtain ⟨r, -, rfl⟩ := List.mem_map.1 hr
        exact Nat.le_add_left _ _
      obtain ⟨hplan, hwarnings⟩ := q.reshapeAll_renumber (f := fun r => r.advance start.index) rs
      obtain ⟨hplan', hwarnings'⟩ := q.reshapeAll_renumber (f := fun r => r.advance start'.index) rs
      rw [hplan, hplan', hwarnings, hwarnings', renumber_renumber, hrebase]
      refine ⟨rfl, rfl, fun a a' ha ha' params => ?_⟩
      -- both run as the compilation from zero on does
      have hruns := Artifact.runs_eq_of_renumber (a := .ofPlan "" (q.reshapeAll rs))
        (Register.renumbers_advance start.index).injective ha params
      have hruns' := Artifact.runs_eq_of_renumber (a := .ofPlan "" (q.reshapeAll rs))
        (Register.renumbers_advance start'.index).injective ha' params
      exact ⟨hruns'.1.trans hruns.1.symm, hruns'.2.1.trans hruns.2.1.symm,
        hruns'.2.2.trans hruns.2.2.symm⟩

/-- The relays, compiled before and after something else has taken registers. -/
theorem relays_start_irrelevant :
    ∃ p p', compileFrom .first relayCatalog relayGraph .default = .ok p ∧
      compileFrom ⟨8⟩ relayCatalog relayGraph .default = .ok p' ∧
      p'.reshapeAll relayReshapings =
        (p.reshapeAll relayReshapings).renumber (Register.rebase .first ⟨8⟩) ∧
      (Artifact.ofPlan "late" (p'.reshapeAll relayReshapings)).process
          (.ofList [("start", .string "both")]) =
        (Artifact.ofPlan "early" (p.reshapeAll relayReshapings)).process
          (.ofList [("start", .string "both")]) ∧
      (p.reshapeAll relayReshapings).registers.map Register.index ≠
        (p'.reshapeAll relayReshapings).registers.map Register.index := by
  obtain ⟨-, hsucceed⟩ :=
    compileFrom_start_irrelevant .first ⟨8⟩ relayCatalog relayGraph .default
  obtain ⟨-, hreshape⟩ := hsucceed _ _ rfl rfl
  obtain ⟨hplan, -, hruns⟩ := hreshape relayReshapings
  exact ⟨_, _, rfl, rfl, hplan, (hruns _ _ rfl rfl _).1, by decide⟩

end Plan

end StepGraph
