import StepGraph.Files.Tree
import StepGraph.Library.Access
import StepGraph.Proofs.Library.Batch
import StepGraph.Proofs.Library.Sources

/-!
# Directories are merged by name

What is read from a directory are the records of its sources, merged by name: a name stands where it
first appears and has the record of the last source that has it. Files that are no sources can be
added and taken away. When the directory is loaded, the artifact of a name is compiled where the
name stands, so that a record which replaces an older one can use what the older one could use, and
can be used where the older one could be used.
-/

namespace StepGraph

/-! ## Looking at files -/

/-- To look at files in the state `s` shows what `list` and `read` say, and changes nothing. -/
structure FileAccess.Shows {σ : Type} (files : FileAccess (StateM σ)) (s : σ)
    (list : String → Except AccessFault (List String))
    (read : String → Except AccessFault ByteArray) : Prop where
  run_list : ∀ path, (files.list path).run s = (list path, s)
  run_read : ∀ path, (files.read path).run s = (read path, s)

theorem FileTree.shows_access (t : FileTree) : FileTree.access.Shows t t.list t.read :=
  ⟨fun _ => rfl, fun _ => rfl⟩

section

variable {σ α β : Type} {s s' : σ}

theorem run_bind_of_run {x : StateM σ α} {a : α} (h : x.run s = (a, s')) (k : α → StateM σ β) :
    (x >>= k).run s = (k a).run s' := by
  rw [StateT.run_bind, h]
  rfl

/-- Actions that do not change the state can be done one after the other. -/
theorem run_mapM_of_run {f : α → StateM σ β} {g : α → β} (h : ∀ a, (f a).run s = (g a, s))
    (as : List α) : (as.mapM f).run s = (as.map g, s) := by
  induction as with
  | nil => rfl
  | cons a as ih =>
      rw [List.mapM_cons, run_bind_of_run (h a), run_bind_of_run ih]
      rfl

end

/-- A list of pairs made of keys has the value of every key. -/
theorem Entries.find?_map_of_mem {κ α : Type} [DecidableEq κ] (f : κ → α) {ks : List κ} {k : κ}
    (h : k ∈ ks) : find? k (ks.map fun k => (k, f k)) = some (f k) := by
  induction ks with
  | nil => cases h
  | cons k' ks ih =>
      rw [List.map_cons, find?_cons]
      split
      · next hk => exact congrArg (fun k => some (f k)) hk
      · next hk => exact ih ((List.mem_cons.1 h).resolve_left fun he => hk he.symm)

namespace Library

variable {σ : Type} {files : FileAccess (StateM σ)} {s : σ}
  {list : String → Except AccessFault (List String)} {read : String → Content}
  {directory : String} {names : List String}

theorem run_readRecords (h : files.Shows s list read) (hnames : list directory = .ok names) :
    (readRecords files directory).run s =
      (.ok (records ((recordFiles names).map fun name => read (Path.join directory name))), s) := by
  rw [readRecords, run_bind_of_run (h.run_list directory), hnames]
  exact run_bind_of_run (run_mapM_of_run (fun name => h.run_read (Path.join directory name)) _) _

/-! ## Loading what has been read -/

section

variable {graphAt graphAt' : String → Except LoadError Graph} {base : String} {rs : Records}

/-- Only the graph that the record names matters for its artifact. -/
theorem artifact?_graphs_congr {record : Json}
    (h : ∀ d, Directive.ofJson? record = some d →
      graphAt (Path.join base d.workflow) = graphAt' (Path.join base d.workflow))
    (start : Register) (catalog : Catalog) (name : String) :
    artifact? graphAt base start catalog name record =
      artifact? graphAt' base start catalog name record := by
  rw [artifact?, artifact?]
  cases hd : Directive.ofJson? record with
  | none => rfl
  | some d => simp only [h d hd]

theorem load_graphs_congr (h : ∀ path ∈ graphPaths base rs, graphAt path = graphAt' path)
    (registry : Registry) : load graphAt base registry rs = load graphAt' base registry rs := by
  refine List.foldl_ext _ _ _ fun l e he => ?_
  have hgraph : ∀ d, Directive.ofJson? e.2 = some d →
      graphAt (Path.join base d.workflow) = graphAt' (Path.join base d.workflow) := by
    intro d hd
    exact h _ (List.mem_filterMap.2 ⟨e, he, by rw [hd, Option.map_some]⟩)
  rw [loadRecord, loadRecord, artifact?_graphs_congr hgraph]

end

/-- The graph in the file at a path. -/
def graphIn (read : String → Content) (path : String) : Except LoadError Graph :=
  graph path (read path)

theorem run_loadRecords (h : files.Shows s list read) (base : String) (registry : Registry)
    (rs : Records) :
    (loadRecords files base registry rs).run s =
      (load (graphIn read) base registry rs, s) := by
  have hread : ∀ path, (do
      let g ← readGraph files path
      pure (path, g)).run s = ((path, graphIn read path), s) := by
    intro path
    rw [readGraph, bind_assoc, run_bind_of_run (h.run_read path)]
    rfl
  rw [loadRecords, run_bind_of_run (run_mapM_of_run hread _)]
  refine congrArg (·, s) (load_graphs_congr (fun path hpath => ?_) registry)
  rw [Entries.find?_map_of_mem _ hpath, Option.getD_some]

theorem run_loadDirectory (h : files.Shows s list read) (hnames : list directory = .ok names)
    (base : String) (registry : Registry) :
    (loadDirectory files base registry directory).run s =
      (.ok (load (graphIn read) base registry
        (records ((recordFiles names).map fun name => read (Path.join directory name)))), s) := by
  rw [loadDirectory, run_bind_of_run (run_readRecords h hnames)]
  exact run_bind_of_run (run_loadRecords h base registry _) _

/-- What is loaded of records among which one stands behind `before` and in front of `after`: its
artifact is compiled when those before it have been registered, and before those after it. -/
def loadAround (graphAt : String → Except LoadError Graph) (base : String) (registry : Registry)
    (before : List (String × Json)) (e : String × Json) (after : List (String × Json)) : Loaded :=
  let first := loadAll graphAt base (fun _ => .first) registry before
  let own := Loaded.single first.registry e.1
    (artifact? graphAt base .first first.registry.lookup e.1 e.2)
  first.append (own.append (loadAll graphAt base (fun _ => .first) own.registry after))

theorem load_eq_loadAround {graphAt : String → Except LoadError Graph} {base : String}
    {registry : Registry} {rs : Records} {before after : List (String × Json)}
    {e : String × Json} (h : rs.entries = before ++ e :: after) :
    load graphAt base registry rs = loadAround graphAt base registry before e after := by
  have hload : load graphAt base registry rs =
      loadAll graphAt base (fun _ => .first) registry rs.entries := rfl
  rw [hload, h, loadAll_append, loadAll_cons]
  rfl

/-- The records of a directory are those of its sources, in the order of their names, merged by
name. Another directory with the same sources has the same records, whatever other files the two
have and in whatever order they are listed. And when the directory is loaded, the record that a name
ends up with is compiled where the name first appears: after the records of the names that have
appeared before, and before all others. -/
theorem directory_merged_by_name (h : files.Shows s list read) (hnames : list directory = .ok names)
    (base : String) (registry : Registry) :
    ∃ (inOrder : List (String × List (String × Json))) (rs : Records),
      (∀ f, f ∈ inOrder ↔ f.1 ∈ names ∧
        (∃ stem ≠ "", f.1 = stem ++ ".yaml" ∨ f.1 = stem ++ ".yml") ∧
          mapping? (read (Path.join directory f.1)) = some f.2) ∧
      inOrder.Perm (sources read directory names) ∧
      (inOrder.Pairwise fun f g => f.1 ≤ g.1) ∧
      MergedByName (inOrder.map Prod.snd) rs ∧
      (readRecords files directory).run s = (.ok rs, s) ∧
      (∀ (τ : Type) (files' : FileAccess (StateM τ)) s' list' read' directory' names',
        files'.Shows s' list' read' → list' directory' = .ok names' →
          (sources read directory names).Perm (sources read' directory' names') →
            (readRecords files' directory').run s' = (.ok rs, s')) ∧
      ∀ earlier name old later,
        (inOrder.map Prod.snd).flatten = earlier ++ (name, old) :: later →
          name ∉ Entries.keys earlier →
            ∃ before record after, rs.entries = before ++ (name, record) :: after ∧
              Entries.keys before = (Entries.keys earlier).eraseDups ∧
              (loadDirectory files base registry directory).run s =
                (.ok (loadAround (graphIn read) base registry before (name, record) after), s) := by
  have hmerged := mergedByName_records read directory names
  refine ⟨sortedSources read directory names, _, fun f => ?_, sortedSources_perm,
    pairwise_sortedSources, hmerged, run_readRecords h hnames, ?_, ?_⟩
  · rw [sortedSources_perm.mem_iff, mem_sources_iff]
  · intro τ files' s' list' read' directory' names' h' hnames' hperm
    rw [run_readRecords h' hnames', records_eq_ofList_sources, records_eq_ofList_sources,
      sortedSources_eq_of_perm hperm]
  · intro earlier name old later hsources hnew
    obtain ⟨before, record, after, hentries, hbefore⟩ := hmerged.exists_split hsources hnew
    refine ⟨before, record, after, hentries, hbefore, ?_⟩
    rw [run_loadDirectory h hnames, load_eq_loadAround hentries]

/-- A directory with two sources that share a name. -/
def twoSources : FileTree where
  files := .ofList [
    (["lib", "b.yml"], "x: {workflow: new}".toUTF8),
    (["lib", "a.yaml"], "x: {workflow: old}\ny: {workflow: own}".toUTF8)]
  directories := [["lib"]]

/-- The same sources in a directory with a list, a text that is no YAML, a file that is no text, one
with another extension, and a directory. -/
def crowdedSources : FileTree where
  files := twoSources.files.insertAll [
    (["lib", "list.yaml"], "- x".toUTF8),
    (["lib", "broken.yaml"], "x: [".toUTF8),
    (["lib", "octets.yaml"], ⟨#[255]⟩),
    (["lib", "notes.txt"], "z: {workflow: own}".toUTF8)]
  directories := [["lib"], ["lib", "directory.yaml"]]

theorem crowdedSources_merged :
    ∃ names names' rs, crowdedSources.list "lib" = .ok names ∧ twoSources.list "lib" = .ok names' ∧
      names.length = 7 ∧
      rs.entries = [("x", recordAt "new"), ("y", recordAt "own")] ∧
      (readRecords FileTree.access "lib").run crowdedSources = (.ok rs, crowdedSources) ∧
      (readRecords FileTree.access "lib").run twoSources = (.ok rs, twoSources) := by
  have hnames : crowdedSources.list "lib" = .ok ["b.yml", "a.yaml", "list.yaml", "broken.yaml",
      "octets.yaml", "notes.txt", "directory.yaml"] := by decide +kernel
  have hnames' : twoSources.list "lib" = .ok ["b.yml", "a.yaml"] := by decide +kernel
  obtain ⟨inOrder, rs, -, -, -, -, hread, hsame, -⟩ :=
    directory_merged_by_name crowdedSources.shows_access hnames "" .empty
  have hsources : sources crowdedSources.read "lib" ["b.yml", "a.yaml", "list.yaml", "broken.yaml",
      "octets.yaml", "notes.txt", "directory.yaml"] =
        sources twoSources.read "lib" ["b.yml", "a.yaml"] := by decide +kernel
  have hentries : (((readRecords FileTree.access "lib").run twoSources).1.toOption.map
      OrderedMap.entries) =
        some [("x", recordAt "new"), ("y", recordAt "own")] := by
    decide +kernel
  have hread' := hsame _ _ _ _ _ _ _ twoSources.shows_access hnames' (.of_eq hsources)
  rw [hread'] at hentries
  exact ⟨_, _, rs, hnames, hnames', rfl, Option.some.inj hentries, hread, hread'⟩

end Library

end StepGraph
