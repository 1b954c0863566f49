import StepGraph.Proofs.Node.Binding
import StepGraph.Proofs.Surface.Names
import StepGraph.Proofs.Wiring

/-!
# What is exported

The outputs to export are `selectedOutputs options ns`, in the order of the nodes and of their
outputs. They are exported one after the other by `exportsFrom`, each under the first free name and
with a new register, and exporting them is attaching one wire per export to the nodes.

The inputs to export are `openInputs linked ns`, those that no link feeds. They go to the end of the
surface under the first free names.
-/

namespace StepGraph.Plan

/-- An exported output and where its value comes from. -/
structure Export where
  source : NodeId
  slot : Nat
  output : ExportedOutput

/-- The wire from the output to the exported one. -/
def Export.wire (x : Export) : Wire := ⟨x.source, x.slot, x.output.register⟩

/-- The name an output should be exported under. -/
def wantedName (options : ExportOptions) (id : NodeId) (o : Output) : String :=
  (options.renames.find? (exportKey id o)).getD o.name

/-- The outputs of one node to export, the first of them being its output number `k`. -/
def selectedFrom (options : ExportOptions) (id : NodeId) : Nat → List Output →
    List (NodeId × Nat × Output)
  | _, [] => []
  | k, o :: os =>
    if isExported options id o then (id, k, o) :: selectedFrom options id (k + 1) os
    else selectedFrom options id (k + 1) os

/-- The outputs to export. -/
def selectedOutputs (options : ExportOptions) (ns : List Node) : List (NodeId × Nat × Output) :=
  ns.flatMap fun n => selectedFrom options n.id 0 n.outputs

/-- Exports outputs one after the other, with registers from the given one on. -/
def exportsFrom (options : ExportOptions) : List String → Register →
    List (NodeId × Nat × Output) → List Export
  | _, _, [] => []
  | taken, r, (id, k, o) :: rest =>
    let name := firstFree (wantedName options id o) taken
    ⟨id, k, ⟨name, o.typeTag, r⟩⟩ :: exportsFrom options (taken ++ [name]) r.next rest

/-- The exports of nodes whose linked outputs have consumers already. -/
def exportsOf (options : ExportOptions) (start : Register) (ns : List Node) : List Export :=
  exportsFrom options [] start (selectedOutputs options ns)

/-- The inputs to export: those that no link feeds. -/
def openInputs (linked : List Register) (ns : List Node) : List Input :=
  (ns.flatMap Node.feeds).filter fun i => i.register ∉ linked

variable {options : ExportOptions}

/-! ## Exporting outputs one after the other -/

theorem exportsFrom_append (taken : List String) (r : Register)
    (first second : List (NodeId × Nat × Output)) :
    exportsFrom options taken r (first ++ second) =
      exportsFrom options taken r first ++
        exportsFrom options (taken ++ (exportsFrom options taken r first).map fun x =>
          x.output.name) (r.advance first.length) second := by
  induction first generalizing taken r with
  | nil => simp [exportsFrom]
  | cons s first ih =>
      obtain ⟨id, k, o⟩ := s
      simp [exportsFrom, ih, Register.next_advance]

/-- Exporting keeps the places of the outputs and their types. -/
theorem map_exportsFrom (taken : List String) (r : Register)
    (selected : List (NodeId × Nat × Output)) :
    (exportsFrom options taken r selected).map
        (fun x => (x.source, x.slot, x.output.typeTag)) =
      selected.map fun s => (s.1, s.2.1, s.2.2.typeTag) := by
  induction selected generalizing taken r with
  | nil => rfl
  | cons s selected ih =>
      obtain ⟨id, k, o⟩ := s
      rw [exportsFrom, List.map_cons, ih, List.map_cons]

theorem length_exportsFrom (taken : List String) (r : Register)
    (selected : List (NodeId × Nat × Output)) :
    (exportsFrom options taken r selected).length = selected.length := by
  simpa using congrArg List.length (@map_exportsFrom options taken r selected)

theorem map_name_exportsFrom (taken : List String) (r : Register)
    (selected : List (NodeId × Nat × Output)) :
    (exportsFrom options taken r selected).map (fun x => x.output.name) =
      exportNames taken (selected.map fun s => wantedName options s.1 s.2.2) := by
  induction selected generalizing taken r with
  | nil => rfl
  | cons s selected ih =>
      obtain ⟨id, k, o⟩ := s
      rw [exportsFrom, List.map_cons, ih, List.map_cons, exportNames]

theorem map_register_exportsFrom (taken : List String) (r : Register)
    (selected : List (NodeId × Nat × Output)) :
    (exportsFrom options taken r selected).map (fun x => x.output.register) =
      (List.range' r.index selected.length).map Register.mk := by
  induction selected generalizing taken r with
  | nil => rfl
  | cons s selected ih =>
      obtain ⟨id, k, o⟩ := s
      rw [exportsFrom, List.map_cons, ih, List.length_cons, List.range'_succ]
      rfl

/-- Where nothing is exported, no wire of an export leaves. -/
theorem wiredFrom_exports_eq_nil {taken : List String} {r : Register}
    {selected : List (NodeId × Nat × Output)} {id : NodeId} {k : Nat}
    (h : ∀ s ∈ selected, ¬ (s.1 = id ∧ s.2.1 = k)) :
    wiredFrom ((exportsFrom options taken r selected).map Export.wire) id k = [] := by
  rw [wiredFrom, List.map_eq_nil_iff, List.filter_eq_nil_iff]
  intro w hw hsame
  obtain ⟨x, hx, rfl⟩ := List.mem_map.1 hw
  have hplace : (x.source, x.slot, x.output.typeTag) ∈
      selected.map fun s => (s.1, s.2.1, s.2.2.typeTag) :=
    @map_exportsFrom options taken r selected ▸ List.mem_map_of_mem hx
  obtain ⟨s, hs, heq⟩ := List.mem_map.1 hplace
  obtain ⟨hid, hrest⟩ := Prod.mk.inj heq
  refine h s hs ?_
  rw [hid, (Prod.mk.inj hrest).1]
  exact of_decide_eq_true hsame

/-- The outputs to export of a node are those that the options ask for, at their places. -/
theorem mem_selectedFrom_iff {id : NodeId} {k : Nat} {os : List Output}
    {s : NodeId × Nat × Output} :
    s ∈ selectedFrom options id k os ↔
      ∃ j o, os[j]? = some o ∧ isExported options id o = true ∧ s = (id, k + j, o) := by
  induction os generalizing k with
  | nil => simp [selectedFrom]
  | cons o os ih =>
      have hlater : s ∈ selectedFrom options id (k + 1) os ↔
          ∃ j o', (o :: os)[j + 1]? = some o' ∧ isExported options id o' = true ∧
            s = (id, k + (j + 1), o') := by
        simp only [ih, List.getElem?_cons_succ, Nat.add_assoc, Nat.add_comm 1]
      constructor
      · intro h
        rw [selectedFrom] at h
        split at h
        · next hexported =>
          rcases List.mem_cons.1 h with rfl | h
          · exact ⟨0, o, rfl, hexported, rfl⟩
          · obtain ⟨j, o', hfound⟩ := hlater.1 h
            exact ⟨j + 1, o', hfound⟩
        · obtain ⟨j, o', hfound⟩ := hlater.1 h
          exact ⟨j + 1, o', hfound⟩
      · rintro ⟨j, o', hj, hexported, rfl⟩
        rw [selectedFrom]
        cases j with
        | zero =>
            obtain rfl : o = o' := by simpa using hj
            simp [hexported]
        | succ j =>
            have hmem := hlater.2 ⟨j, o', hj, hexported, rfl⟩
            split
            · exact List.mem_cons_of_mem _ hmem
            · exact hmem

theorem le_of_mem_selectedFrom {id : NodeId} {k : Nat} {os : List Output}
    {s : NodeId × Nat × Output} (h : s ∈ selectedFrom options id k os) : s.1 = id ∧ k ≤ s.2.1 := by
  obtain ⟨j, o, -, -, rfl⟩ := mem_selectedFrom_iff.1 h
  exact ⟨rfl, Nat.le_add_right k j⟩

/-! ## Exporting outputs is attaching wires -/

/-- Exporting the outputs of a node adds a new register to those that are selected. -/
theorem exportNodeOutputs_eq {id : NodeId} (os : List Output) (k : Nat) (e : Exports) :
    exportNodeOutputs options id e os =
      let xs := exportsFrom options (e.outputs.map ExportedOutput.name) e.next
        (selectedFrom options id k os)
      (os.mapIdx fun j o =>
          { o with consumers := o.consumers ++ wiredFrom (xs.map Export.wire) id (k + j) },
        ⟨e.outputs ++ xs.map Export.output, e.next.advance xs.length⟩) := by
  induction os generalizing k e with
  | nil => simp [exportNodeOutputs, selectedFrom, exportsFrom]
  | cons o os ih =>
      have hlater : ∀ s ∈ selectedFrom options id (k + 1) os, ¬ (s.1 = id ∧ s.2.1 = k) := by
        rintro s hs ⟨-, rfl⟩
        exact absurd (le_of_mem_selectedFrom hs).2 (by omega)
      have hnone : ∀ taken r, wiredFrom ((exportsFrom options taken r
          (selectedFrom options id (k + 1) os)).map Export.wire) id k = [] :=
        fun taken r => wiredFrom_exports_eq_nil hlater
      have hindex : ∀ j, k + 1 + j = k + (j + 1) := by omega
      by_cases hexported : isExported options id o = true
      · have hne : ∀ j, ¬ k = k + (j + 1) := by omega
        have hmap : ∀ name, (e.outputs ++ [(⟨name, o.typeTag, e.next⟩ : ExportedOutput)]).map
            ExportedOutput.name = e.outputs.map ExportedOutput.name ++ [name] := by simp
        simp only [exportNodeOutputs, exportOutput, selectedFrom, hexported, if_true, exportsFrom,
          ih (k + 1), hmap, List.mapIdx_cons, List.map_cons, wiredFrom_cons, Export.wire,
          true_and, Nat.add_zero, hindex, hne, if_false, hnone, Register.next_advance,
          List.length_cons, List.append_assoc, List.singleton_append, wantedName]
      · simp only [exportNodeOutputs, exportOutput, selectedFrom, hexported, ih (k + 1),
          List.mapIdx_cons, hnone, hindex, Nat.add_zero, List.append_nil, Bool.false_eq_true,
          if_false]

theorem attach_of_wiredFrom_eq_nil {ws : List Wire} {n : Node}
    (h : ∀ k, wiredFrom ws n.id k = []) : n.attach ws = n := by
  refine Node.eq_of_getElem?_outputs rfl fun k => ?_
  rw [getElem?_outputs_attach, h]
  cases n.outputs[k]? with
  | none => rfl
  | some o => simp

theorem exists_of_mem_selectedOutputs {ns : List Node} {s : NodeId × Nat × Output}
    (h : s ∈ selectedOutputs options ns) : ∃ n ∈ ns, s.1 = n.id := by
  obtain ⟨n, hn, hs⟩ := List.mem_flatMap.1 h
  exact ⟨n, hn, (le_of_mem_selectedFrom hs).1⟩

theorem exportOutputsFrom_eq {ns : List Node} (hnodup : (ns.map Node.id).Nodup) (e : Exports) :
    exportOutputsFrom options e ns =
      let xs := exportsFrom options (e.outputs.map ExportedOutput.name) e.next
        (selectedOutputs options ns)
      (ns.map (Node.attach (xs.map Export.wire)),
        ⟨e.outputs ++ xs.map Export.output, e.next.advance xs.length⟩) := by
  induction ns generalizing e with
  | nil => simp [exportOutputsFrom, selectedOutputs, exportsFrom]
  | cons n ns ih =>
      obtain ⟨hnew, hnodup⟩ := List.nodup_cons.1 hnodup
      let first := exportsFrom options (e.outputs.map ExportedOutput.name) e.next
        (selectedFrom options n.id 0 n.outputs)
      let later := exportsFrom options ((e.outputs ++ first.map Export.output).map
        ExportedOutput.name) (e.next.advance first.length) (selectedOutputs options ns)
      have hexports : exportsFrom options (e.outputs.map ExportedOutput.name) e.next
          (selectedOutputs options (n :: ns)) = first ++ later := by
        rw [selectedOutputs, List.flatMap_cons, exportsFrom_append,
          ← @length_exportsFrom options (e.outputs.map ExportedOutput.name) e.next]
        simp only [first, later, List.map_append, List.map_map]
        rfl
      -- what later nodes export leaves this one alone, and the other way round
      have hlater : ∀ k, wiredFrom (later.map Export.wire) n.id k = [] := by
        intro k
        refine wiredFrom_exports_eq_nil ?_
        rintro s hs ⟨hid, -⟩
        obtain ⟨m, hm, hsm⟩ := exists_of_mem_selectedOutputs hs
        exact hnew (hid ▸ hsm ▸ List.mem_map_of_mem hm)
      have hfirst : ∀ m ∈ ns, m.attach (first.map Export.wire) = m := by
        intro m hm
        refine attach_of_wiredFrom_eq_nil fun k => wiredFrom_exports_eq_nil ?_
        rintro s hs ⟨hid, -⟩
        have hne : m.id = n.id := hid.symm.trans (le_of_mem_selectedFrom hs).1
        exact hnew (hne ▸ List.mem_map_of_mem hm)
      have hn : n.attach ((first ++ later).map Export.wire) = { n with
          outputs := n.outputs.mapIdx fun k o =>
            { o with consumers := o.consumers ++ wiredFrom (first.map Export.wire) n.id k } } := by
        rw [List.map_append, Node.attach]
        simp only [wiredFrom_append, hlater, List.append_nil]
      have hns : ns.map (Node.attach ((first ++ later).map Export.wire)) =
          ns.map (Node.attach (later.map Export.wire)) := by
        refine List.map_congr_left fun m hm => ?_
        rw [List.map_append, attach_append, hfirst m hm]
      rw [exportOutputsFrom, exportNodeOutputs_eq n.outputs 0 e]
      simp only [ih hnodup, hexports, List.map_cons, hn, hns, Nat.zero_add]
      simp only [first, later, List.map_append, List.append_assoc, List.length_append,
        Register.advance, Nat.add_assoc]

theorem exportOutputs_eq {ns : List Node} (hnodup : (ns.map Node.id).Nodup) (start : Register) :
    exportOutputs options start ns =
      (ns.map (Node.attach ((exportsOf options start ns).map Export.wire)),
        ⟨(exportsOf options start ns).map Export.output,
          start.advance (exportsOf options start ns).length⟩) :=
  exportOutputsFrom_eq hnodup ⟨[], start⟩

/-! ## Exporting inputs -/

/-- The inputs that no link feeds go to the end of the surface, each under the first free name. -/
theorem entries_exportInputs (linked : List Register) (surface : InputMap) (ns : List Node) :
    (exportInputs linked surface ns).entries = surface.entries ++
      (exportNames surface.keys ((openInputs linked ns).map Input.name)).zip
        (openInputs linked ns) := by
  rw [exportInputs, openInputs]
  induction ns.flatMap Node.feeds generalizing surface with
  | nil => simp [exportNames]
  | cons i is ih =>
      rw [List.foldl_cons, ih, exportInput]
      by_cases hlinked : i.register ∈ linked
      · simp [hlinked]
      · have hfree := firstFree_not_mem i.name surface.keys
        simp [hlinked, exportNames, OrderedMap.entries_insert_of_not_mem hfree,
          OrderedMap.keys_insert_of_not_mem hfree, -OrderedMap.entries_insert]

end StepGraph.Plan
