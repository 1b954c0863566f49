import StepGraph.Proofs.Pipeline

/-!
# Which registers are read

A step reads its arguments by name, and of inputs of one name it reads the last one: a required
input is lost to an optional or a hidden one of its name, and an optional input to a hidden one. The
node still has a slot or a value input for the lost one, with a register of its own that links and
callers can reach, but nothing reads from there. `InputSchema.Redeclares` says which inputs these
are. Every other register that is on the surface, or that a link leads to, is read by a stage.
-/

namespace StepGraph

open Plan

/-- The input of the group is declared again, under the same name, in a later group. -/
def InputSchema.Redeclares (s : InputSchema) : InputGroup → String → Prop
  | .required, name => name ∈ s.optional.keys ∨ name ∈ s.hidden.keys
  | .optional, name => name ∈ s.hidden.keys
  | .hidden, _ => False

/-! ## Maps from lists that repeat keys -/

namespace OrderedMap

variable {κ α : Type*} [DecidableEq κ] {fs : List (κ × α)} {k : κ} {a : α}

theorem find?_ofList_of_not_mem (es : List (κ × α)) (h : k ∉ Entries.keys fs) :
    (ofList (es ++ (k, a) :: fs)).find? k = some a := by
  rw [ofList, insertAll_append, insertAll_cons, find?_insertAll_of_not_mem _ h, find?_insert,
    if_pos rfl]

/-- A later pair of the same key counts. -/
theorem exists_find?_ofList_of_mem (es : List (κ × α)) (h : k ∈ Entries.keys fs) :
    ∃ a, (k, a) ∈ fs ∧ (ofList (es ++ fs)).find? k = some a := by
  obtain ⟨e, he, hek⟩ := List.mem_map.1 h
  have hne : fs.filter (fun e => e.1 = k) ≠ [] :=
    List.ne_nil_of_mem (List.mem_filter.2 ⟨he, by simp [hek]⟩)
  obtain ⟨last, hlast⟩ : ∃ last, (fs.filter fun e => e.1 = k).getLast? = some last :=
    ⟨_, List.getLast?_eq_some_getLast hne⟩
  obtain ⟨hmem, hkey⟩ := List.mem_filter.1 (List.mem_of_getLast? hlast)
  obtain ⟨k', a⟩ := last
  obtain rfl : k' = k := of_decide_eq_true hkey
  refine ⟨a, hmem, ?_⟩
  rw [ofList, insertAll_append, find?_insertAll, hlast]
  rfl

end OrderedMap

/-! ## The argument of an input -/

/-- An input is declared again if its name comes once more after it. -/
theorem InputSchema.redeclares_iff {s : InputSchema} {e : InputGroup × String × InputSpec}
    {before after : List (InputGroup × String × InputSpec)} (h : s.visible = before ++ e :: after) :
    s.Redeclares e.1 e.2.1 ↔ e.2.1 ∈ after.map (fun d => d.2.1) ∨ e.2.1 ∈ s.hidden.keys := by
  have hnames : ∀ {group : InputGroup} {m : OrderedMap String InputSpec},
      (m.entries.map fun d => (group, d)).map (fun d => d.2.1) = m.keys := by
    intro group m
    rw [List.map_map]
    rfl
  -- a name is not repeated within a group
  have hlast : ∀ {group : InputGroup} {m : OrderedMap String InputSpec}
      {first last : List (InputGroup × String × InputSpec)},
      m.entries.map (fun d => (group, d)) = first ++ e :: last →
        e.1 = group ∧ e.2.1 ∉ last.map fun d => d.2.1 := by
    intro group m first last hm
    have hmem : e ∈ m.entries.map fun d => (group, d) := hm ▸ by simp
    obtain ⟨d, -, rfl⟩ := List.mem_map.1 hmem
    have hnodup : ((m.entries.map fun d => (group, d)).map fun d => d.2.1).Nodup :=
      hnames ▸ m.nodup_keys
    rw [hm, List.map_append, List.map_cons] at hnodup
    exact ⟨rfl, (List.nodup_cons.1 (List.nodup_append.1 hnodup).2.1).1⟩
  rcases List.append_eq_append_iff.1 h with ⟨first, rfl, hoptional⟩ | ⟨first, hrequired, hafter⟩
  · obtain ⟨hgroup, hnew⟩ := hlast hoptional
    rw [hgroup, Redeclares, or_iff_right hnew]
  · cases first with
    | nil =>
        have hoptional : s.optional.entries.map (fun d => (InputGroup.optional, d)) =
            [] ++ e :: after := hafter.symm
        obtain ⟨hgroup, hnew⟩ := hlast hoptional
        rw [hgroup, Redeclares, or_iff_right hnew]
    | cons d first =>
        obtain ⟨rfl, rfl⟩ := List.cons.inj hafter
        obtain ⟨hgroup, hnew⟩ := hlast hrequired
        rw [hgroup, Redeclares, List.append_eq, List.map_append, List.mem_append,
          or_iff_right hnew, hnames]

/-- The argument is read from the register of an input, unless the input is declared again. -/
theorem Plan.find?_argumentMap_eq_iff {hidden : InputMap} {start : Register} {s : InputSchema}
    {i : Input} (hi : i ∈ freshInputs start s.visible)
    (hhidden : ∀ e ∈ s.hidden.entries, hiddenRegister hidden e.1 ≠ i.register) :
    (argumentMap start hidden s).find? i.name = some i.register ↔
      ¬ s.Redeclares i.group i.name := by
  obtain ⟨before, after, hfresh⟩ := List.append_of_mem hi
  let later := after.map (fun j => (j.name, j.register)) ++
    s.hidden.entries.map fun e => (e.1, hiddenRegister hidden e.1)
  have hargs : argumentMap start hidden s =
      .ofList (before.map (fun j => (j.name, j.register)) ++ (i.name, i.register) :: later) := by
    rw [argumentMap, hfresh, List.map_append, List.map_cons, List.append_assoc, List.cons_append]
  have hkeys : i.name ∈ Entries.keys later ↔ s.Redeclares i.group i.name := by
    have hvisible := map_declaration_freshInputs start s.visible
    rw [hfresh, List.map_append, List.map_cons] at hvisible
    have hredeclares := InputSchema.redeclares_iff hvisible.symm
    rw [List.map_map] at hredeclares
    refine Iff.trans ?_ hredeclares.symm
    rw [Entries.keys, List.map_append, List.mem_append, List.map_map, List.map_map]
    rfl
  -- what is declared later has other registers
  have hother : (i.name, i.register) ∉ later := by
    intro hmem
    rcases List.mem_append.1 hmem with hmem | hmem
    · obtain ⟨j, hj, hji⟩ := List.mem_map.1 hmem
      have hregister : j.register = i.register := congrArg Prod.snd hji
      have hnodup := nodup_register_freshInputs start s.visible
      rw [hfresh, List.map_append, List.map_cons] at hnodup
      refine (List.nodup_cons.1 (List.nodup_append.1 hnodup).2.1).1 ?_
      exact hregister ▸ List.mem_map_of_mem hj
    · obtain ⟨e, he, hei⟩ := List.mem_map.1 hmem
      exact hhidden e he (congrArg Prod.snd hei)
  rw [hargs, ← hkeys]
  constructor
  · intro hfound hmem
    obtain ⟨r, hr, hlast⟩ := OrderedMap.exists_find?_ofList_of_mem
      (before.map (fun j => (j.name, j.register)) ++ [(i.name, i.register)]) hmem
    rw [List.append_assoc, List.singleton_append, hfound] at hlast
    exact hother (Option.some.inj hlast ▸ hr)
  · exact OrderedMap.find?_ofList_of_not_mem _

theorem Vertex.Makes.find?_inputMap_eq_iff {hidden : InputMap} {start : Register} {v : Vertex}
    {n : Node} {i : Input} (h : v.Makes hidden start n) (hi : i ∈ n.feeds)
    (hhidden : ∀ e ∈ v.step.schema.hidden.entries, hiddenRegister hidden e.1 ≠ i.register) :
    n.inputMap.find? i.name = some i.register ↔ ¬ v.step.schema.Redeclares i.group i.name := by
  -- apart from its default the input is a fresh one
  have hperm := h.perm_feeds (f := fun i => (i.group, i.name, i.register)) fun _ _ => rfl
  obtain ⟨j, hj, heq⟩ := List.mem_map.1 (hperm.mem_iff.1 (List.mem_map_of_mem hi))
  obtain ⟨hgroup, hrest⟩ := Prod.mk.inj heq
  obtain ⟨hname, hregister⟩ := Prod.mk.inj hrest
  rw [← hregister] at hhidden
  rw [h.inputMap, ← hgroup, ← hname, ← hregister]
  exact find?_argumentMap_eq_iff hj hhidden

/-- Hidden inputs come last, so that no other input has the argument. -/
theorem Vertex.Makes.find?_inputMap_of_mem_hidden {hidden : InputMap} {start : Register}
    {v : Vertex} {n : Node} {x : String} (h : v.Makes hidden start n)
    (hx : x ∈ v.step.schema.hidden.keys) :
    n.inputMap.find? x = some (hiddenRegister hidden x) := by
  have hlast : x ∈ Entries.keys (v.step.schema.hidden.entries.map fun e =>
      (e.1, hiddenRegister hidden e.1)) := by
    rw [Entries.keys, List.map_map]
    exact hx
  obtain ⟨r, hr, hfound⟩ := OrderedMap.exists_find?_ofList_of_mem
    ((freshInputs start v.step.schema.visible).map fun i => (i.name, i.register)) hlast
  obtain ⟨e, -, heq⟩ := List.mem_map.1 hr
  obtain ⟨rfl, rfl⟩ := Prod.mk.inj heq
  rw [h.inputMap, argumentMap, hfound]

namespace Plan

namespace NodeGraph

variable {catalog : Catalog} {g : Graph} {ng : NodeGraph} {options : ExportOptions}
  {order : List Nat} {p : Plan} {n : Node} {i : Input}

theorem Represents.hiddenRegister_ne (h : ng.Represents catalog g) {v : Vertex}
    (hv : v ∈ g.vertices catalog) {e : String × InputSpec}
    (he : e ∈ v.step.schema.hidden.entries) (hn : n ∈ ng.nodes) (hi : i ∈ n.feeds) :
    hiddenRegister ng.hidden e.1 ≠ i.register := by
  obtain ⟨j, hj, -⟩ := h.agrees v hv e he
  rw [hiddenRegister_of_find? hj]
  exact (h.register_ne hn hi (List.mem_map_of_mem (OrderedMap.find?_eq_some_iff.1 hj))).symm

theorem Represents.find?_inputMap_eq_iff (h : ng.Represents catalog g) (hn : n ∈ ng.nodes)
    (hi : i ∈ n.feeds) :
    n.inputMap.find? i.name = some i.register ↔ ¬ n.step.schema.Redeclares i.group i.name := by
  obtain ⟨v, hv, start, hmakes⟩ := h.exists_makes hn
  rw [hmakes.step]
  exact hmakes.find?_inputMap_eq_iff hi fun e he => h.hiddenRegister_ne hv he hn hi

/-! ## Who reads a register -/

/-- The register of an input is read by its node or not at all. -/
theorem Compiles.reads_feed_iff (hc : ng.Compiles g options order p)
    (h : ng.Represents catalog g) (hn : n ∈ ng.nodes) (hi : i ∈ n.feeds) :
    (∃ k, p.Reads k i.register) ↔ n.inputMap.find? i.name = some i.register := by
  simp only [hc.reads_iff]
  constructor
  · rintro ⟨k, m, hm, hr⟩
    have hmem := hc.pick_nodes_perm.mem_iff.1 (List.mem_of_getElem? hm)
    obtain ⟨v, hv, start, hmakes⟩ := h.exists_makes hmem
    obtain ⟨⟨name, r⟩, ha, rfl⟩ := List.mem_map.1 hr
    -- the register belongs to no other input, so that the argument has the name of this one
    rcases hmakes.mem_entries_inputMap ha with ⟨j, hj, rfl, heq⟩ | ⟨e, he, -, heq⟩
    · obtain ⟨rfl, rfl⟩ := h.eq_of_register_eq hmem hn hj hi heq
      exact OrderedMap.find?_eq_some_iff.2 ha
    · exact absurd heq (h.hiddenRegister_ne hv he hn hi)
  · intro hfound
    obtain ⟨k, hk⟩ := List.mem_iff_getElem?.1 (hc.pick_nodes_perm.mem_iff.2 hn)
    exact ⟨k, n, hk, List.mem_map_of_mem (OrderedMap.find?_eq_some_iff.1 hfound)⟩

/-- The node of a step that declares a hidden input reads from its register. -/
theorem Compiles.reads_hidden (hc : ng.Compiles g options order p)
    (h : ng.Represents catalog g) (hi : i ∈ ng.hidden.values) : ∃ k, p.Reads k i.register := by
  obtain ⟨⟨name, i⟩, he, rfl⟩ := List.mem_map.1 hi
  have hname : name ∈ g.hiddenNames catalog := h.keys_hidden ▸ List.mem_map_of_mem he
  rw [Graph.hiddenNames, List.mem_eraseDups] at hname
  obtain ⟨v, hv, hdeclares⟩ := List.mem_flatMap.1 hname
  obtain ⟨n, hn, start, hmakes⟩ :=
    exists_of_mem_forall₂ h.makes ((g.arranged_perm catalog).mem_iff.2 hv)
  have hfound := hmakes.find?_inputMap_of_mem_hidden hdeclares
  rw [hiddenRegister_of_find? (OrderedMap.find?_eq_some_iff.2 he)] at hfound
  obtain ⟨k, hk⟩ := List.mem_iff_getElem?.1 (hc.pick_nodes_perm.mem_iff.2 hn)
  exact ⟨k, hc.reads_iff.2 ⟨n, hk, List.mem_map_of_mem (OrderedMap.find?_eq_some_iff.1 hfound)⟩⟩

/-- Some input with this register is declared again by the step of its node. -/
def Redeclared (ng : NodeGraph) (r : Register) : Prop :=
  ∃ n ∈ ng.nodes, ∃ i ∈ n.feeds, i.register = r ∧ n.step.schema.Redeclares i.group i.name

theorem Compiles.reads_feed_iff_not_redeclared (hc : ng.Compiles g options order p)
    (h : ng.Represents catalog g) (hn : n ∈ ng.nodes) (hi : i ∈ n.feeds) :
    (∃ k, p.Reads k i.register) ↔ ¬ ng.Redeclared i.register := by
  rw [hc.reads_feed_iff h hn hi, h.find?_inputMap_eq_iff hn hi]
  refine not_congr ⟨fun hredeclares => ⟨n, hn, i, hi, rfl, hredeclares⟩, ?_⟩
  rintro ⟨m, hm, j, hj, heq, hredeclares⟩
  obtain ⟨rfl, rfl⟩ := h.eq_of_register_eq hm hn hj hi heq
  exact hredeclares

/-- Of the registers that callers and links lead to, those of inputs that are declared again are not
read. -/
theorem Compiles.reads_iff_not_redeclared (hc : ng.Compiles g options order p)
    (h : ng.Represents catalog g) {r : Register}
    (hr : r ∈ Surface.registers p.inputs ∨ ∃ l ∈ g.links, Targets ng.nodes l r) :
    (∃ k, p.Reads k r) ↔ ¬ ng.Redeclared r := by
  rcases hr with hr | ⟨l, -, n, hn, i, -, hslot, rfl⟩
  · rw [hc.registers_inputs h] at hr
    obtain ⟨i, hi, rfl⟩ := List.mem_map.1 hr
    rcases List.mem_append.1 hi with hi | hi
    · refine iff_of_true (hc.reads_hidden h hi) ?_
      rintro ⟨n, hn, j, hj, heq, -⟩
      exact h.register_ne hn hj hi heq
    · obtain ⟨⟨n, hn, hfeed⟩, -⟩ := mem_freeInputs.1 hi
      exact hc.reads_feed_iff_not_redeclared h hn hfeed
  · exact hc.reads_feed_iff_not_redeclared h hn (mem_feeds_of_slot hslot)

end NodeGraph

/-- Nodes read each of their inputs by its name, and stages read from every register that a caller
or a link writes to, save for the inputs that are declared again. -/
theorem compiled_reads_all_but_redeclared (start : Register) (catalog : Catalog) (g : Graph)
    (options : ExportOptions) (p : Plan) (h : compileFrom start catalog g options = .ok p) :
    ∃ ng, createNodes catalog start g.nodes = .ok ng ∧
      (∀ n ∈ ng.nodes, ∀ i ∈ n.feeds, n.inputMap.find? i.name = some i.register ↔
        ¬ n.step.schema.Redeclares i.group i.name) ∧
      ∀ r, (r ∈ Surface.registers p.inputs ∨ ∃ l ∈ g.links, Targets ng.nodes l r) →
        ((∃ k, p.Reads k r) ↔ ¬ ng.Redeclared r) := by
  obtain ⟨ng, order, hcreate, hrepresents, hcompiles⟩ := compiles_of_compileFrom_eq_ok h
  refine ⟨ng, hcreate, ?_, ?_⟩
  · intro n hn i hi
    exact hrepresents.find?_inputMap_eq_iff hn hi
  · intro r hr
    exact hcompiles.reads_iff_not_redeclared hrepresents hr

/-- A step that declares `value` as a required and as an optional input. -/
def twiceStep : Step where
  schema := ⟨.ofList [("value", .ofType "INT")], .ofList [("value", .ofType "INT")], .empty⟩
  outputs := [.ofType "INT"]
  invoke params := pure (.plain (params.find? "value").toList)

/-- Knows relays and the step that declares an input twice. -/
def twiceCatalog : Catalog := fun type =>
  if type = "twice" then some twiceStep else relayCatalog type

/-- A relay whose value goes to the required one of two inputs of a name, and a second node like
that without a link. -/
def twiceGraph : Graph where
  nodes := [
    ⟨"relay", some ⟨"source"⟩, none, [], [], .empty⟩,
    ⟨"twice", some ⟨"linked"⟩, none, [⟨"value", .empty⟩], [], .empty⟩,
    ⟨"twice", some ⟨"open"⟩, none, [], [], .empty⟩]
  links := [⟨none, ⟨"source"⟩, 0, ⟨"linked"⟩, 0, .null⟩]
  extra := .empty

theorem twice_reads_all_but_redeclared :
    ∃ p ng, compileFrom .first twiceCatalog twiceGraph .default = .ok p ∧
      createNodes twiceCatalog .first twiceGraph.nodes = .ok ng ∧
      ∀ r ∈ Surface.registers p.inputs, (∃ k, p.Reads k r) ↔ ¬ ng.Redeclared r := by
  obtain ⟨ng, hcreate, -, hreads⟩ :=
    compiled_reads_all_but_redeclared .first twiceCatalog twiceGraph .default _ rfl
  exact ⟨_, ng, rfl, hcreate, fun r hr => hreads r (Or.inl hr)⟩

theorem exists_reads_iff {p : Plan} {r : Register} :
    (∃ k, p.Reads k r) ↔ r ∈ p.stages.flatMap fun s => s.inputMap.values := by
  rw [List.mem_flatMap]
  constructor
  · rintro ⟨k, s, hs, hr⟩
    exact ⟨s, List.mem_of_getElem? hs, hr⟩
  · rintro ⟨s, hs, hr⟩
    obtain ⟨k, hk⟩ := List.mem_iff_getElem?.1 hs
    exact ⟨k, s, hk, hr⟩

/-- Not every input is read: neither the slot that the link enters nor the required input that is
open, although the surface shows it. -/
theorem twice_not_all_read :
    ∃ p ng, compileFrom .first twiceCatalog twiceGraph .default = .ok p ∧
      createNodes twiceCatalog .first twiceGraph.nodes = .ok ng ∧
      (∃ n ∈ ng.nodes, ∃ i ∈ n.feeds, n.inputMap.find? i.name ≠ some i.register) ∧
      (∃ r ∈ Surface.registers p.inputs, ¬ ∃ k, p.Reads k r) ∧
      ∃ l ∈ twiceGraph.links, ∃ r, Targets ng.nodes l r ∧ ¬ ∃ k, p.Reads k r := by
  refine ⟨_, _, rfl, rfl, ⟨_, .tail _ (.head _), _, .head _, by decide⟩, ⟨⟨5⟩, by decide, ?_⟩,
    _, .head _, ⟨3⟩, ⟨_, .tail _ (.head _), _, rfl, rfl, rfl⟩, ?_⟩
  · rw [exists_reads_iff]
    decide
  · rw [exists_reads_iff]
    decide

end Plan

end StepGraph
