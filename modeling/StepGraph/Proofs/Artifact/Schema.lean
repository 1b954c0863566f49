import StepGraph.Artifact.Basic
import StepGraph.Proofs.Dataflow.Naming
import StepGraph.Proofs.Pipeline

/-!
# What an artifact declares

The schema of an artifact lists every exported input once, under its group and with its spec. Each
group keeps the order of the surface. The outputs have distinct names, and a run that succeeds gives
one value for each of them.
-/

namespace StepGraph

open Plan

/-- The inputs of a schema that are in a group. -/
def InputSchema.inGroup (s : InputSchema) : InputGroup → OrderedMap String InputSpec
  | .required => s.required
  | .optional => s.optional
  | .hidden => s.hidden

/-- The inputs of a surface that are in a group, by their names and with their specs. -/
def Surface.inGroup (group : InputGroup) (es : List (String × Input)) : List (String × InputSpec) :=
  (es.filter fun e => e.2.group = group).map fun e => (e.1, e.2.spec)

/-- What an input of a surface is declared as. -/
def Surface.declaration (e : String × Input) : InputGroup × String × InputSpec :=
  (e.2.group, e.1, e.2.spec)

theorem InputSchema.inGroup_insert (s : InputSchema) (group group' : InputGroup) (name : String)
    (spec : InputSpec) :
    (s.insert group name spec).inGroup group' =
      if group = group' then (s.inGroup group').insert name spec else s.inGroup group' := by
  cases group <;> cases group' <;> rfl

namespace Surface

variable {es : List (String × Input)} {group : InputGroup}

/-- Declaring inputs with new names adds those of each group at its end. -/
theorem entries_inGroup_foldl {s : InputSchema} (hnodup : (Entries.keys es).Nodup)
    (hnew : ∀ x ∈ Entries.keys es, ∀ group, x ∉ (s.inGroup group).keys) :
    ((es.foldl (fun s e => s.insert e.2.group e.1 e.2.spec) s).inGroup group).entries =
      (s.inGroup group).entries ++ inGroup group es := by
  induction es generalizing s with
  | nil => simp [inGroup]
  | cons e es ih =>
      obtain ⟨hfresh, hnodup⟩ := List.nodup_cons.1 hnodup
      obtain ⟨he, hes⟩ := List.forall_mem_cons.1 hnew
      have hnew' : ∀ x ∈ Entries.keys es, ∀ group,
          x ∉ ((s.insert e.2.group e.1 e.2.spec).inGroup group).keys := by
        intro x hx group'
        rw [InputSchema.inGroup_insert]
        split
        · have hne : x ≠ e.1 := fun h => hfresh (h ▸ hx)
          simp [OrderedMap.keys_insert_of_not_mem (he group'), hes x hx group', hne]
        · exact hes x hx group'
      rw [List.foldl_cons, ih hnodup hnew', InputSchema.inGroup_insert]
      by_cases hgroup : e.2.group = group
      · simp [inGroup, hgroup, OrderedMap.entries_insert_of_not_mem (he group),
          -OrderedMap.entries_insert]
      · simp [inGroup, hgroup]

theorem filter_group_perm (es : List (String × Input)) :
    ((es.filter fun e => e.2.group = .required) ++ (es.filter fun e => e.2.group = .optional) ++
      es.filter fun e => e.2.group = .hidden).Perm es := by
  induction es with
  | nil => simp
  | cons e es ih =>
      cases hgroup : e.2.group with
      | required => simpa [hgroup] using ih
      | optional =>
          simp only [hgroup, List.filter_cons, reduceCtorEq, decide_false, decide_true,
            Bool.false_eq_true, if_false, if_true, List.append_assoc, List.cons_append]
          rw [List.append_assoc] at ih
          exact List.perm_middle.trans (ih.cons e)
      | hidden =>
          simp only [hgroup, List.filter_cons, reduceCtorEq, decide_false, decide_true,
            Bool.false_eq_true, if_false, if_true]
          exact List.perm_middle.trans (ih.cons e)

theorem map_inGroup (group : InputGroup) (es : List (String × Input)) :
    (inGroup group es).map (fun e => (group, e)) =
      (es.filter fun e => e.2.group = group).map declaration := by
  rw [inGroup, List.map_map]
  refine List.map_congr_left fun e he => ?_
  have hgroup : e.2.group = group := by simpa using (List.mem_filter.1 he).2
  simp [declaration, hgroup]

end Surface

namespace Artifact

theorem entries_inGroup_schema (a : Artifact) (group : InputGroup) :
    (a.schema.inGroup group).entries = Surface.inGroup group a.plan.inputs.entries := by
  rw [schema, Surface.entries_inGroup_foldl a.plan.inputs.nodup_keys]
  · cases group <;> rfl
  · intro x _ group
    cases group <;> simp [InputSchema.empty, InputSchema.inGroup, OrderedMap.keys]

theorem map_entries_inGroup_schema (a : Artifact) (group : InputGroup) :
    (a.schema.inGroup group).entries.map (fun e => (group, e)) =
      (a.plan.inputs.entries.map Surface.declaration).filter fun d => d.1 = group := by
  rw [entries_inGroup_schema, Surface.map_inGroup, List.filter_map]
  rfl

/-- The schema declares every exported input once, and nothing else. -/
theorem entries_schema_perm (a : Artifact) :
    a.schema.entries.Perm (a.plan.inputs.entries.map Surface.declaration) := by
  have hrequired := a.map_entries_inGroup_schema .required
  have hoptional := a.map_entries_inGroup_schema .optional
  have hhidden := a.map_entries_inGroup_schema .hidden
  simp only [InputSchema.inGroup] at hrequired hoptional hhidden
  rw [InputSchema.entries, hrequired, hoptional, hhidden]
  simp only [List.filter_map, ← List.map_append]
  exact (Surface.filter_group_perm _).map _

theorem names_schema_perm (a : Artifact) : a.schema.names.Perm a.plan.inputs.keys := by
  have hperm := a.entries_schema_perm.map fun e => e.2.1
  rw [List.map_map] at hperm
  exact hperm

theorem nodup_names_schema (a : Artifact) : a.schema.names.Nodup :=
  a.names_schema_perm.nodup_iff.2 a.plan.inputs.nodup_keys

/-! ## Outputs -/

theorem length_of_readOutputs {s : Store} {outputs : List ExportedOutput} {values : List Json}
    (h : readOutputs s outputs = .ok values) : values.length = outputs.length := by
  induction outputs generalizing values with
  | nil =>
      cases h
      rfl
  | cons o outputs ih =>
      rw [readOutputs] at h
      split at h
      · cases hrest : readOutputs s outputs with
        | error e =>
            rw [hrest] at h
            cases h
        | ok rest =>
            rw [hrest] at h
            cases h
            rw [List.length_cons, List.length_cons, ih hrest]
      · cases h

/-- A run that succeeds gives one value for every output. -/
theorem length_values_of_process {a : Artifact} {params : Params} {result : ProcessResult}
    (h : (a.process params).outcome = .ok result) :
    result.values.length = a.plan.outputs.length := by
  obtain ⟨s, -, h⟩ := Run.outcome_bind_eq_ok_iff.1 h
  obtain ⟨⟨s', ui⟩, -, h⟩ := Run.outcome_bind_eq_ok_iff.1 h
  obtain ⟨values, hvalues, h⟩ := Run.outcome_bind_eq_ok_iff.1 h
  cases h
  exact length_of_readOutputs hvalues

end Artifact

namespace Plan

/-- No two outputs of a compiled graph have one name. -/
theorem nodup_names_outputs {start : Register} {catalog : Catalog} {g : Graph}
    {options : ExportOptions} {p : Plan} (h : compileFrom start catalog g options = .ok p) :
    (p.outputs.map ExportedOutput.name).Nodup := by
  obtain ⟨ng, order, -, -, hcompiles⟩ := compiles_of_compileFrom_eq_ok h
  have hnodup := nodup_append_exportNames List.nodup_nil
    ((selectedOutputs options (ng.nodes.map (Node.attach (ng.linkWires g)))).map
      fun s => wantedName options s.1 s.2.2)
  rw [← map_name_exportsFrom [] ng.next] at hnodup
  rw [hcompiles.outputs, List.map_map]
  exact hnodup

/-- Graphs of steps with the property, compiled, with some merges and renamings afterwards. -/
inductive BuiltFrom (P : Step → Prop) : Plan → Prop
  | intro {start : Register} {catalog : Catalog} {g : Graph} {options : ExportOptions} {p : Plan}
      (steps : ∀ n ∈ g.nodes, ∀ step, catalog n.type = some step → P step)
      (compiled : compileFrom start catalog g options = .ok p) (rs : List Reshaping) :
      BuiltFrom P (p.reshapeAll rs)

namespace BuiltFrom

variable {P : Step → Prop} {p : Plan}

theorem pipelined (h : p.BuiltFrom P) : p.Pipelined := by
  obtain ⟨-, hcompile, rs⟩ := h
  obtain ⟨ng, order, -, hrepresents, hcompiles⟩ := compiles_of_compileFrom_eq_ok hcompile
  obtain ⟨hstages, houtputs, hkeeps⟩ := reshapeAll_keeps _ rs
  exact hcompiles.pipelined hrepresents hstages houtputs hkeeps

theorem nodup_names (h : p.BuiltFrom P) : (p.outputs.map ExportedOutput.name).Nodup := by
  obtain ⟨-, hcompile, rs⟩ := h
  rw [(reshapeAll_keeps _ rs).2.1]
  exact nodup_names_outputs hcompile

end BuiltFrom

end Plan

end StepGraph
