import StepGraph.Library.Basic
import StepGraph.Proofs.Library.Registry
import StepGraph.Proofs.Renumbering.Runs

/-!
# Records of a library do not disturb each other

A library is loaded record by record, and the artifact of a record is registered before the next
record is looked at. What a record does is seen by later records in one place only: the step that
is found under its name. So a record that is skipped might as well not be there, and two records
that follow each other can change places if neither of their graphs uses the other one.

From which registers on the artifacts are compiled, each from one of its own, shows in nothing but
the numbers of their registers.
-/

namespace StepGraph

open Plan

/-! ## Compiling sees the types that the graph names -/

theorem Plan.makeNodes_congr {catalog catalog' : Catalog} {saved : List Graph.Node}
    (h : ∀ n ∈ saved, catalog n.type = catalog' n.type) (start : Nat) (seen : List NodeId)
    (a : Allotment) :
    makeNodes catalog start seen a saved = makeNodes catalog' start seen a saved := by
  induction saved generalizing start seen a with
  | nil => rfl
  | cons n saved ih =>
      obtain ⟨hn, hsaved⟩ := List.forall_mem_cons.1 h
      simp only [makeNodes, hn, ih hsaved]

theorem Plan.compileFrom_congr {catalog catalog' : Catalog} {g : Graph}
    (h : ∀ n ∈ g.nodes, catalog n.type = catalog' n.type) (start : Register)
    (options : ExportOptions) :
    compileFrom start catalog g options = compileFrom start catalog' g options := by
  rw [compileFrom, compileFrom, createNodes, createNodes, makeNodes_congr h]

/-! ## Artifacts that differ in their registers -/

namespace Artifact

/-- Both are one artifact whose registers have been moved, by two distances. -/
def SameUpToRegisters (a a' : Artifact) : Prop :=
  ∃ (b : Artifact) (j k : Nat),
    a = b.renumber (fun r => r.advance j) ∧ a' = b.renumber (fun r => r.advance k)

namespace SameUpToRegisters

variable {a a' : Artifact} (h : a.SameUpToRegisters a')

include h

theorem name_eq : a.name = a'.name := by
  obtain ⟨b, j, k, rfl, rfl⟩ := h
  rfl

theorem displayName_eq : a.displayName = a'.displayName := by
  obtain ⟨b, j, k, rfl, rfl⟩ := h
  rfl

theorem step_eq : a.step = a'.step := by
  obtain ⟨b, j, k, rfl, rfl⟩ := h
  rw [step_renumber (Register.renumbers_advance j).injective,
    step_renumber (Register.renumbers_advance k).injective]

end SameUpToRegisters

end Artifact

theorem Directive.integrateFrom_renumber {f : Register → Register} (hf : Register.Renumbers f)
    (start : Register) (d : Directive) (name : String) (catalog : Catalog) (g : Graph) :
    d.integrateFrom (f start) name catalog g =
      (d.integrateFrom start name catalog g).map (Artifact.renumber f) := by
  rw [integrateFrom, integrateFrom, compileFrom_renumber hf]
  refine Except.map_bind_of fun plan _ => ?_
  simp only [mergeInputs_renumber, Prod.map, renameInputs_renumber]
  rfl

namespace Library

section

variable {graphAt : String → Except LoadError Graph} {base : String}

/-- The graph of the record can be read and has a node of the type. -/
def UsesType (graphAt : String → Except LoadError Graph) (base : String) (record : Json)
    (type : String) : Prop :=
  ∃ d g, Directive.ofJson? record = some d ∧ graphAt (Path.join base d.workflow) = .ok g ∧
    ∃ n ∈ g.nodes, n.type = type

theorem artifact?_congr {catalog catalog' : Catalog} {record : Json}
    (h : ∀ type, UsesType graphAt base record type → catalog type = catalog' type)
    (start : Register) (name : String) :
    artifact? graphAt base start catalog name record =
      artifact? graphAt base start catalog' name record := by
  rw [artifact?, artifact?]
  cases hd : Directive.ofJson? record with
  | none => rfl
  | some d =>
      simp only
      cases hg : graphAt (Path.join base d.workflow) with
      | error e => rfl
      | ok g =>
          have htypes : ∀ n ∈ g.nodes, catalog n.type = catalog' n.type :=
            fun n hn => h n.type ⟨d, g, hd, hg, n, hn, rfl⟩
          simp only [Directive.integrateFrom, compileFrom_congr htypes]

/-- Whatever register an artifact is compiled from, there is one or not, and it is the same but for
its registers. -/
theorem rel_artifact? (start start' : Register) (catalog : Catalog) (name : String)
    (record : Json) :
    Option.Rel Artifact.SameUpToRegisters (artifact? graphAt base start catalog name record)
      (artifact? graphAt base start' catalog name record) := by
  rw [artifact?, artifact?]
  cases Directive.ofJson? record with
  | none => exact .none
  | some d =>
      simp only
      cases graphAt (Path.join base d.workflow) with
      | error e => exact .none
      | ok g =>
          have hstart : ∀ start : Register, d.integrateFrom start name catalog g =
              (d.integrateFrom ⟨0⟩ name catalog g).map
                (Artifact.renumber fun r => r.advance start.index) := by
            intro start
            have hmoved := d.integrateFrom_renumber (Register.renumbers_advance start.index) ⟨0⟩
              name catalog g
            rwa [Register.zero_advance] at hmoved
          simp only
          rw [hstart start, hstart start']
          cases d.integrateFrom ⟨0⟩ name catalog g with
          | error e => exact .none
          | ok a => exact .some ⟨a, start.index, start'.index, rfl, rfl⟩

theorem name_of_artifact? {start : Register} {catalog : Catalog} {name : String} {record : Json}
    {a : Artifact} (h : artifact? graphAt base start catalog name record = some a) :
    a.name = name := by
  rw [artifact?] at h
  split at h
  · cases h
  · next d hd =>
    split at h
    · cases h
    · next g hg =>
      cases hintegrate : d.integrateFrom start name catalog g with
      | error e =>
          rw [hintegrate] at h
          cases h
      | ok a' =>
          rw [hintegrate] at h
          obtain rfl := Option.some.inj h
          obtain ⟨plan, -, hresult⟩ := Except.bind_eq_ok_iff.1 hintegrate
          cases hresult
          rfl

/-! ## Loading one record after another -/

/-- Loads records one after the other. -/
def loadAll (graphAt : String → Except LoadError Graph) (base : String)
    (startOf : String → Register) (registry : Registry) (es : List (String × Json)) : Loaded :=
  es.foldl (loadRecord graphAt base startOf) { registry }

namespace Loaded

/-- What has been loaded first, and what has been loaded after it. -/
def append (l m : Loaded) : Loaded :=
  ⟨m.registry, l.integrated ++ m.integrated, l.skipped ++ m.skipped⟩

/-- What a record adds: its artifact, which is registered, or its name, which is skipped. -/
def single (registry : Registry) (name : String) : Option Artifact → Loaded
  | some a => ⟨registry.registerAs name a.displayName a.step, [a], []⟩
  | none => ⟨registry, [], [name]⟩

theorem append_assoc (l m n : Loaded) : (l.append m).append n = l.append (m.append n) := by
  simp [append]

end Loaded

variable {startOf startOf' : String → Register} {registry registry' : Registry}
  {e f : String × Json} {es fs before after : List (String × Json)}

theorem loadRecord_eq_append (l : Loaded) :
    loadRecord graphAt base startOf l e =
      l.append (.single l.registry e.1
        (artifact? graphAt base (startOf e.1) l.registry.lookup e.1 e.2)) := by
  rw [loadRecord]
  cases artifact? graphAt base (startOf e.1) l.registry.lookup e.1 e.2 with
  | none => simp [Loaded.append, Loaded.single]
  | some a => simp [Loaded.append, Loaded.single]

theorem foldl_loadRecord (l : Loaded) (es : List (String × Json)) :
    es.foldl (loadRecord graphAt base startOf) l =
      l.append (loadAll graphAt base startOf l.registry es) := by
  induction es generalizing l with
  | nil => simp [loadAll, Loaded.append]
  | cons e es ih =>
      rw [loadAll, List.foldl_cons, List.foldl_cons, ih, ih (loadRecord graphAt base startOf _ e),
        loadRecord_eq_append, loadRecord_eq_append, Loaded.append_assoc, Loaded.append_assoc]
      simp [Loaded.append]

theorem loadAll_cons :
    loadAll graphAt base startOf registry (e :: es) =
      (Loaded.single registry e.1
        (artifact? graphAt base (startOf e.1) registry.lookup e.1 e.2)).append
          (loadAll graphAt base startOf (Loaded.single registry e.1
            (artifact? graphAt base (startOf e.1) registry.lookup e.1 e.2)).registry es) := by
  rw [loadAll, List.foldl_cons, foldl_loadRecord, loadRecord_eq_append]
  rfl

theorem loadAll_append :
    loadAll graphAt base startOf registry (es ++ fs) =
      (loadAll graphAt base startOf registry es).append
        (loadAll graphAt base startOf (loadAll graphAt base startOf registry es).registry fs) := by
  rw [loadAll, List.foldl_append, foldl_loadRecord]
  rfl

/-! ## What is integrated and what is skipped -/

/-- The names are split, in their order, into those that are skipped and the others. -/
def Splits (names integrated skipped : List String) : Prop :=
  integrated = names.filter (· ∉ skipped) ∧ skipped = names.filter (· ∈ skipped)

namespace Splits

variable {names integrated skipped : List String} {name : String}

theorem mem (h : Splits names integrated skipped) (hname : name ∈ skipped) : name ∈ names := by
  rw [h.2] at hname
  exact (List.mem_filter.1 hname).1

theorem integrate (h : Splits names integrated skipped) (hnew : name ∉ names) :
    Splits (name :: names) (name :: integrated) skipped := by
  have hfree : name ∉ skipped := fun hmem => hnew (h.mem hmem)
  constructor
  · rw [List.filter_cons_of_pos (by simpa using hfree), ← h.1]
  · rw [List.filter_cons_of_neg (by simpa using hfree), ← h.2]

theorem skip (h : Splits names integrated skipped) (hnew : name ∉ names) :
    Splits (name :: names) integrated (name :: skipped) := by
  have hother : ∀ x ∈ names, x ∈ name :: skipped ↔ x ∈ skipped := by
    intro x hx
    refine List.mem_cons.trans (or_iff_right ?_)
    rintro rfl
    exact hnew hx
  constructor
  · rw [List.filter_cons_of_neg (by simp), h.1]
    exact List.filter_congr fun x hx => by rw [decide_eq_decide, hother x hx]
  · rw [List.filter_cons_of_pos (by simp)]
    refine congrArg (name :: ·) (h.2.trans ?_)
    exact List.filter_congr fun x hx => by rw [decide_eq_decide, hother x hx]

end Splits

theorem splits_loadAll (h : (Entries.keys es).Nodup) :
    Splits (Entries.keys es)
      ((loadAll graphAt base startOf registry es).integrated.map Artifact.name)
      (loadAll graphAt base startOf registry es).skipped := by
  induction es generalizing registry with
  | nil => exact ⟨rfl, rfl⟩
  | cons e es ih =>
      obtain ⟨hnew, hnodup⟩ := List.nodup_cons.1 h
      rw [loadAll_cons]
      cases hartifact : artifact? graphAt base (startOf e.1) registry.lookup e.1 e.2 with
      | none => exact (ih hnodup).skip hnew
      | some a =>
          simp only [Loaded.append, Loaded.single, List.map_append, List.map_singleton,
            name_of_artifact? hartifact]
          exact (ih hnodup).integrate hnew

/-! ## Two runs -/

/-- The same has been loaded, but for the registers of the artifacts and the order in which they
were registered. -/
structure Loaded.SameUpToRegisters (l l' : Loaded) : Prop where
  registry : l.registry.Agrees l'.registry
  integrated : List.Forall₂ Artifact.SameUpToRegisters l.integrated l'.integrated
  skipped : l.skipped = l'.skipped

namespace Loaded.SameUpToRegisters

theorem append {l l' m m' : Loaded} (h : l.SameUpToRegisters l') (h' : m.SameUpToRegisters m') :
    (l.append m).SameUpToRegisters (l'.append m') where
  registry := h'.registry
  integrated := List.rel_append h.integrated h'.integrated
  skipped := congrArg₂ (· ++ ·) h.skipped h'.skipped

theorem single (hregistry : registry.Agrees registry') (name : String) {o o' : Option Artifact}
    (h : Option.Rel Artifact.SameUpToRegisters o o') :
    (Loaded.single registry name o).SameUpToRegisters (Loaded.single registry' name o') := by
  cases h with
  | none => exact ⟨hregistry, .nil, rfl⟩
  | some ha =>
      refine ⟨?_, .cons ha .nil, rfl⟩
      rw [Loaded.single, Loaded.single, ha.displayName_eq, ha.step_eq]
      exact hregistry.registerAs ..

end Loaded.SameUpToRegisters

theorem rel_artifact?_of_agrees (graphAt : String → Except LoadError Graph) (base : String)
    (h : registry.Agrees registry') (start start' : Register) (e : String × Json) :
    Option.Rel Artifact.SameUpToRegisters
      (artifact? graphAt base start registry.lookup e.1 e.2)
      (artifact? graphAt base start' registry'.lookup e.1 e.2) := by
  rw [h.lookup_eq]
  exact rel_artifact? ..

/-- Wherever the artifacts take their registers, the same is loaded. -/
theorem sameUpToRegisters_loadAll (graphAt : String → Except LoadError Graph) (base : String)
    (startOf startOf' : String → Register) (h : registry.Agrees registry')
    (es : List (String × Json)) :
    (loadAll graphAt base startOf registry es).SameUpToRegisters
      (loadAll graphAt base startOf' registry' es) := by
  induction es generalizing registry registry' with
  | nil => exact ⟨h, .nil, rfl⟩
  | cons e es ih =>
      have hrel : Option.Rel Artifact.SameUpToRegisters
          (artifact? graphAt base (startOf e.1) registry.lookup e.1 e.2)
          (artifact? graphAt base (startOf' e.1) registry'.lookup e.1 e.2) :=
        rel_artifact?_of_agrees graphAt base h ..
      have hsingle := Loaded.SameUpToRegisters.single h e.1 hrel
      rw [loadAll_cons, loadAll_cons]
      exact hsingle.append (ih hsingle.registry)

/-! ## A record that is skipped -/

/-- A record that is skipped has no artifact when its turn comes. -/
theorem artifact?_of_mem_skipped (hnodup : (Entries.keys (before ++ e :: after)).Nodup)
    (h : e.1 ∈ (loadAll graphAt base startOf registry (before ++ e :: after)).skipped) :
    artifact? graphAt base (startOf e.1)
      (loadAll graphAt base startOf registry before).registry.lookup e.1 e.2 = none := by
  rw [Entries.keys, List.map_append] at hnodup
  obtain ⟨hbefore, hrest, hdisjoint⟩ := List.nodup_append.1 hnodup
  obtain ⟨hnew, hafter⟩ := List.nodup_cons.1 hrest
  have hold : e.1 ∉ Entries.keys before := fun hmem =>
    hdisjoint e.1 hmem e.1 (List.mem_cons_self ..) rfl
  rw [loadAll_append, loadAll_cons] at h
  rcases List.mem_append.1 h with h | h
  · exact absurd ((splits_loadAll hbefore).mem h) hold
  rcases List.mem_append.1 h with h | h
  · cases hartifact : artifact? graphAt base (startOf e.1)
        (loadAll graphAt base startOf registry before).registry.lookup e.1 e.2 with
    | none => rfl
    | some a =>
        rw [hartifact] at h
        exact absurd h List.not_mem_nil
  · exact absurd ((splits_loadAll hafter).mem h) hnew

/-- Without a record that is skipped, the same is loaded but for its name. -/
theorem loadAll_without_skipped (startOf' : String → Register)
    (hnodup : (Entries.keys (before ++ e :: after)).Nodup)
    (h : e.1 ∈ (loadAll graphAt base startOf registry (before ++ e :: after)).skipped) :
    (loadAll graphAt base startOf registry (before ++ [e])).registry =
        (loadAll graphAt base startOf registry before).registry ∧
      Loaded.SameUpToRegisters
        { loadAll graphAt base startOf registry (before ++ e :: after) with
          skipped :=
            (loadAll graphAt base startOf registry (before ++ e :: after)).skipped.erase e.1 }
        (loadAll graphAt base startOf' registry (before ++ after)) := by
  have hnone := artifact?_of_mem_skipped hnodup h
  rw [Entries.keys, List.map_append] at hnodup
  obtain ⟨hbefore, -, hdisjoint⟩ := List.nodup_append.1 hnodup
  have hold : e.1 ∉ (loadAll graphAt base startOf registry before).skipped := fun hmem =>
    hdisjoint e.1 ((splits_loadAll hbefore).mem hmem) e.1 (List.mem_cons_self ..) rfl
  refine ⟨?_, ?_⟩
  · rw [loadAll_append, loadAll_cons, hnone]
    rfl
  · rw [loadAll_append, loadAll_cons, hnone, loadAll_append]
    have hfirst := sameUpToRegisters_loadAll graphAt base startOf startOf' (.refl registry) before
    have hrest := sameUpToRegisters_loadAll graphAt base startOf startOf' hfirst.registry after
    have hboth := hfirst.append hrest
    simp only [Loaded.append, Loaded.single, List.nil_append, List.singleton_append,
      List.erase_append_right _ hold, List.erase_cons_head]
    exact ⟨hboth.registry, hboth.integrated, hboth.skipped⟩

/-! ## Two records that change places -/

namespace Loaded

/-- The artifact under a name. -/
def find? (l : Loaded) (name : String) : Option Artifact :=
  l.integrated.find? fun a => a.name = name

/-- The same has been loaded, but for registers and in whatever order. -/
structure Alike (l l' : Loaded) : Prop where
  registry : l.registry.Agrees l'.registry
  skipped : l.skipped.Perm l'.skipped
  found : ∀ name, Option.Rel Artifact.SameUpToRegisters (l.find? name) (l'.find? name)

theorem find?_append (l m : Loaded) (name : String) :
    (l.append m).find? name = (l.find? name).or (m.find? name) :=
  List.find?_append

theorem rel_or {α : Type} {r : α → α → Prop} {o o' p p' : Option α} (h : Option.Rel r o o')
    (h' : Option.Rel r p p') : Option.Rel r (o.or p) (o'.or p') := by
  cases h with
  | none => exact h'
  | some ha => exact .some ha

/-- Which name is skipped does not depend on what has been registered. -/
theorem skipped_single (registry registry' : Registry) (name : String) (o : Option Artifact) :
    (single registry name o).skipped = (single registry' name o).skipped := by
  cases o <;> rfl

theorem find?_single (registry registry' : Registry) (name x : String) (o : Option Artifact) :
    (single registry name o).find? x = (single registry' name o).find? x := by
  cases o <;> rfl

theorem find?_single_of_ne {name x : String} {o : Option Artifact}
    (hname : ∀ a, o = some a → a.name = name) (h : name ≠ x) :
    (single registry name o).find? x = none := by
  cases o with
  | none => rfl
  | some a => simp [single, find?, hname a rfl, h]

theorem lookup_single_of_ne {name x : String} (h : name ≠ x) (o : Option Artifact) :
    (single registry name o).registry.lookup x = registry.lookup x := by
  cases o with
  | none => rfl
  | some a =>
      rw [single, Registry.lookup, Registry.registerAs, OrderedMap.find?_insert, if_neg h]
      rfl

theorem SameUpToRegisters.alike {l l' : Loaded} (h : l.SameUpToRegisters l') : l.Alike l' := by
  refine ⟨h.registry, .of_eq h.skipped, fun name => ?_⟩
  have hintegrated := h.integrated
  rw [find?, find?]
  generalize l.integrated = as at hintegrated
  generalize l'.integrated = as' at hintegrated
  induction hintegrated with
  | nil => exact .none
  | cons ha _ ih =>
      rw [List.find?_cons, List.find?_cons, ha.name_eq]
      split
      · exact .some ha
      · exact ih

theorem Alike.append {l l' m m' : Loaded} (h : l.Alike l') (h' : m.Alike m') :
    (l.append m).Alike (l'.append m') := by
  refine ⟨h'.registry, h.skipped.append h'.skipped, fun name => ?_⟩
  rw [find?_append, find?_append]
  exact rel_or (h.found name) (h'.found name)

/-- Two artifacts, or names that are skipped, can be added in either order. -/
theorem alike_single_single (h : registry.Agrees registry') {x y : String} (hne : x ≠ y)
    {o o' p p' : Option Artifact} (ho : Option.Rel Artifact.SameUpToRegisters o o')
    (hp : Option.Rel Artifact.SameUpToRegisters p p') (hx : ∀ a, o' = some a → a.name = x)
    (hy : ∀ a, p' = some a → a.name = y) :
    ((single registry x o).append (single (single registry x o).registry y p)).Alike
      ((single registry' y p').append (single (single registry' y p').registry x o')) := by
  have hsame := (SameUpToRegisters.single h x ho).alike
  have hsame' := (SameUpToRegisters.single h y hp).alike
  refine ⟨?_, ?_, fun name => ?_⟩
  · cases ho with
    | none => exact hsame'.registry
    | @some a a' ha =>
        cases hp with
        | none => exact hsame.registry
        | @some c c' hc =>
            simp only [append, single, ha.displayName_eq, ha.step_eq, hc.displayName_eq, hc.step_eq]
            exact h.registerAs_comm hne ..
  · have hskipped := hsame'.skipped.append hsame.skipped
    rw [skipped_single registry (single registry x o).registry y p,
      skipped_single registry' (single registry' y p').registry x o'] at hskipped
    exact List.perm_append_comm.trans hskipped
  · have hfound := rel_or (hsame.found name) (hsame'.found name)
    have hswap : ((single registry' x o').find? name).or ((single registry' y p').find? name) =
        ((single registry' y p').find? name).or ((single registry' x o').find? name) := by
      by_cases hname : x = name
      · rw [find?_single_of_ne hy fun hy => hne (hname.trans hy.symm), Option.or_none,
          Option.none_or]
      · rw [find?_single_of_ne hx hname, Option.or_none, Option.none_or]
    rw [hswap, find?_single registry (single registry x o).registry y name p,
      find?_single registry' (single registry' y p').registry x name o'] at hfound
    rwa [find?_append, find?_append]

end Loaded

/-- The artifact of a record does not change when a type that its graph does not use is
registered. -/
theorem artifact?_single {name : String} (h : ¬ UsesType graphAt base e.2 name) (start : Register)
    (o : Option Artifact) :
    artifact? graphAt base start (Loaded.single registry name o).registry.lookup e.1 e.2 =
      artifact? graphAt base start registry.lookup e.1 e.2 := by
  refine artifact?_congr (fun type htype => Loaded.lookup_single_of_ne ?_ o) start e.1
  rintro rfl
  exact h htype

/-- Two records that follow each other, neither of whose graphs uses the other one, can change
places. -/
theorem loadAll_swap (hne : e.1 ≠ f.1) (he : ¬ UsesType graphAt base e.2 f.1)
    (hf : ¬ UsesType graphAt base f.2 e.1) :
    (loadAll graphAt base startOf registry (before ++ e :: f :: after)).Alike
      (loadAll graphAt base startOf' registry (before ++ f :: e :: after)) := by
  simp only [loadAll_append, loadAll_cons, artifact?_single he, artifact?_single hf]
  have hfirst := sameUpToRegisters_loadAll graphAt base startOf startOf' (.refl registry) before
  have hmiddle := Loaded.alike_single_single hfirst.registry hne
    (rel_artifact?_of_agrees graphAt base hfirst.registry (startOf e.1) (startOf' e.1) e)
    (rel_artifact?_of_agrees graphAt base hfirst.registry (startOf f.1) (startOf' f.1) f)
    (fun a => name_of_artifact?) (fun a => name_of_artifact?)
  have hrest := sameUpToRegisters_loadAll graphAt base startOf startOf' hmiddle.registry after
  have hall := hfirst.alike.append (hmiddle.append hrest.alike)
  rwa [Loaded.append_assoc, Loaded.append_assoc] at hall

end

/-- However the artifacts take their registers, a batch of records is loaded as follows. Its names
are split, in their order, into those of the artifacts and those that are skipped, and a record that
is skipped leaves the registry as it was. Without such a record the same artifacts, but for their
registers, the same other skipped names and the same registry come out. And so it is if two
neighbours change places neither of whose graphs uses the other name as a type: the artifact under
each name is the same but for its registers, and so is every answer of the registry. -/
theorem loadFrom_isolates (graphAt : String → Except LoadError Graph) (base : String)
    (startOf startOf' : String → Register) (registry : Registry) (rs : Records) :
    Splits rs.keys ((loadFrom graphAt base startOf registry rs).integrated.map Artifact.name)
      (loadFrom graphAt base startOf registry rs).skipped ∧
    (∀ x ∈ (loadFrom graphAt base startOf registry rs).skipped,
      (∀ (earlier upTo : Records) record later,
        rs.entries = earlier.entries ++ (x, record) :: later →
          upTo.entries = earlier.entries ++ [(x, record)] →
            (loadFrom graphAt base startOf registry upTo).registry =
              (loadFrom graphAt base startOf registry earlier).registry) ∧
      List.Forall₂ Artifact.SameUpToRegisters
        (loadFrom graphAt base startOf registry rs).integrated
        (loadFrom graphAt base startOf' registry (rs.erase x)).integrated ∧
      (loadFrom graphAt base startOf' registry (rs.erase x)).skipped =
        (loadFrom graphAt base startOf registry rs).skipped.erase x ∧
      (loadFrom graphAt base startOf registry rs).registry.SameAnswers
        (loadFrom graphAt base startOf' registry (rs.erase x)).registry) ∧
    ∀ (rs' : Records) before e f after, rs.entries = before ++ e :: f :: after →
      rs'.entries = before ++ f :: e :: after → ¬ UsesType graphAt base e.2 f.1 →
        ¬ UsesType graphAt base f.2 e.1 →
          (∀ name, Option.Rel Artifact.SameUpToRegisters
            ((loadFrom graphAt base startOf registry rs).find? name)
            ((loadFrom graphAt base startOf' registry rs').find? name)) ∧
          (loadFrom graphAt base startOf registry rs).skipped.Perm
            (loadFrom graphAt base startOf' registry rs').skipped ∧
          (loadFrom graphAt base startOf registry rs).registry.SameAnswers
            (loadFrom graphAt base startOf' registry rs').registry := by
  have hload : ∀ startOf (rs : Records), loadFrom graphAt base startOf registry rs =
      loadAll graphAt base startOf registry rs.entries := fun _ _ => rfl
  simp only [hload]
  refine ⟨splits_loadAll rs.nodup_keys, fun x hx => ⟨?_, ?_⟩, ?_⟩
  · intro earlier upTo record later hrs hupTo
    have hnodup := rs.nodup_keys
    rw [hrs] at hx hnodup
    rw [hupTo]
    exact (loadAll_without_skipped startOf hnodup hx).1
  · obtain ⟨record, hrecord⟩ :=
      OrderedMap.mem_keys_iff.1 ((splits_loadAll rs.nodup_keys).mem hx)
    obtain ⟨before, after, hrs, herase, -⟩ := Entries.exists_of_find?_eq_some hrecord
    have hnodup := rs.nodup_keys
    rw [OrderedMap.entries_erase, herase]
    rw [hrs] at hx hnodup ⊢
    have hsame := (loadAll_without_skipped startOf' hnodup hx).2
    exact ⟨hsame.integrated, hsame.skipped.symm, hsame.registry.sameAnswers⟩
  · intro rs' before e f after hrs hrs' he hf
    have hnodup := rs.nodup_keys
    rw [hrs] at hnodup
    have hne : e.1 ≠ f.1 := by
      rw [Entries.keys, List.map_append] at hnodup
      have hef := (List.nodup_append.1 hnodup).2.1
      exact fun h => (List.nodup_cons.1 hef).1 (h ▸ List.mem_cons_self ..)
    rw [hrs, hrs']
    have halike : (loadAll graphAt base startOf registry (before ++ e :: f :: after)).Alike
        (loadAll graphAt base startOf' registry (before ++ f :: e :: after)) :=
      loadAll_swap hne he hf
    exact ⟨halike.found, halike.skipped, halike.registry.sameAnswers⟩

/-- Knows where the graph of the relays is, and no other one. -/
def relayFiles (path : String) : Except LoadError Graph :=
  if path = "relays.json" then .ok relayGraph else .error (.unreadableGraph path)

/-- A record that says where its graph is, and nothing else. -/
def recordAt (workflow : String) : Json := .object [("workflow", .string workflow)]

/-- Two records that use the graph of the relays, and one whose graph is missing. -/
def relayRecords : Records :=
  .ofList [("near", recordAt "relays.json"), ("far", recordAt "relays.json"),
    ("broken", recordAt "missing.json")]

def relayRegistry : Registry := .register .empty "relay" relayStep

/-- The graph of the relays has relays only. -/
theorem eq_relay_of_usesType {type : String}
    (h : UsesType relayFiles "" (recordAt "relays.json") type) : type = "relay" := by
  obtain ⟨d, g, hd, hg, n, hn, rfl⟩ := h
  cases hd
  cases hg
  have hall : ∀ n ∈ relayGraph.nodes, n.type = "relay" := by decide
  exact hall n hn

/-- The record whose graph is missing may be left out, and the two others may change places. -/
theorem relays_isolated :
    "broken" ∈ (loadFrom relayFiles "" (fun _ => .first) relayRegistry relayRecords).skipped ∧
      (loadFrom relayFiles "" (fun _ => ⟨8⟩) relayRegistry
        (relayRecords.erase "broken")).skipped = [] ∧
      ∃ swapped : Records,
        swapped.entries = [("far", recordAt "relays.json"), ("near", recordAt "relays.json"),
          ("broken", recordAt "missing.json")] ∧
        (loadFrom relayFiles "" (fun _ => .first) relayRegistry relayRecords).registry.SameAnswers
          (loadFrom relayFiles "" (fun _ => ⟨8⟩) relayRegistry swapped).registry := by
  have hskipped : (loadFrom relayFiles "" (fun _ => .first) relayRegistry relayRecords).skipped =
      ["broken"] := rfl
  have hbroken : "broken" ∈
      (loadFrom relayFiles "" (fun _ => .first) relayRegistry relayRecords).skipped := by
    rw [hskipped]
    exact List.mem_singleton_self _
  obtain ⟨-, hwithout, hswap⟩ := loadFrom_isolates relayFiles "" (fun _ => .first) (fun _ => ⟨8⟩)
    relayRegistry relayRecords
  obtain ⟨-, -, hothers, -⟩ := hwithout "broken" hbroken
  have hnear : ¬ UsesType relayFiles "" (recordAt "relays.json") "near" :=
    fun h => absurd (eq_relay_of_usesType h) (by decide)
  have hfar : ¬ UsesType relayFiles "" (recordAt "relays.json") "far" :=
    fun h => absurd (eq_relay_of_usesType h) (by decide)
  refine ⟨hbroken, ?_, .ofList [("far", recordAt "relays.json"), ("near", recordAt "relays.json"),
    ("broken", recordAt "missing.json")], rfl, ?_⟩
  · rw [hothers, hskipped]
    rfl
  · exact (hswap _ [] ("near", recordAt "relays.json") ("far", recordAt "relays.json") _ rfl rfl
      hfar hnear).2.2

end Library

end StepGraph
