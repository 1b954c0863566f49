import StepGraph.Proofs.Surface.Accounting

/-!
# The names of exported outputs

An output is exported under the name that the options give to its key, or else under its own, and if
an earlier output has that name already, with the least suffix that is free. It does not matter
which nodes there are: their ids may be repeated, new names may clash with each other, with names of
outputs and with names that have a suffix, and still no two outputs are exported under one name.
-/

namespace StepGraph.Plan

variable {options : ExportOptions}

/-- A node exports the outputs that are to be exported, after those that are there. -/
theorem outputs_exportNodeOutputs (id : NodeId) (e : Exports) (os : List Output) :
    (exportNodeOutputs options id e os).2.outputs = e.outputs ++
      (exportsFrom options (e.outputs.map ExportedOutput.name) e.next
        (selectedFrom options id 0 os)).map Export.output :=
  congrArg (fun r => r.2.outputs) (exportNodeOutputs_eq os 0 e)

theorem next_exportNodeOutputs (id : NodeId) (e : Exports) (os : List Output) :
    (exportNodeOutputs options id e os).2.next =
      e.next.advance (selectedFrom options id 0 os).length := by
  rw [exportNodeOutputs_eq os 0 e]
  simp only [length_exportsFrom]

/-- Which outputs are exported, and how, is decided one after the other, also where ids of nodes are
repeated. -/
theorem outputs_exportOutputsFrom (e : Exports) (ns : List Node) :
    (exportOutputsFrom options e ns).2.outputs = e.outputs ++
      (exportsFrom options (e.outputs.map ExportedOutput.name) e.next
        (selectedOutputs options ns)).map Export.output := by
  induction ns generalizing e with
  | nil => simp [exportOutputsFrom, selectedOutputs, exportsFrom]
  | cons n ns ih =>
      have hselected : selectedOutputs options (n :: ns) =
          selectedFrom options n.id 0 n.outputs ++ selectedOutputs options ns := rfl
      have hnames : (exportNodeOutputs options n.id e n.outputs).2.outputs.map
          ExportedOutput.name = e.outputs.map ExportedOutput.name ++
            (exportsFrom options (e.outputs.map ExportedOutput.name) e.next
              (selectedFrom options n.id 0 n.outputs)).map fun x => x.output.name := by
        rw [outputs_exportNodeOutputs, List.map_append, List.map_map]
        rfl
      rw [exportOutputsFrom, ih, hnames, next_exportNodeOutputs, outputs_exportNodeOutputs,
        hselected, exportsFrom_append, List.map_append, List.append_assoc]

/-- Whatever the nodes are, no two outputs are exported under one name, and each gets the first free
one. -/
theorem exportOutputs_named (options : ExportOptions) (start : Register) (ns : List Node) :
    NamedInTurn
      (((outputPlaces ns).filter fun s => isExported options s.1 s.2.2).map fun s =>
        wantedName options s.1 s.2.2)
      ((exportOutputs options start ns).2.outputs.map ExportedOutput.name) := by
  have hnames : (exportOutputs options start ns).2.outputs.map ExportedOutput.name =
      exportNames [] ((selectedOutputs options ns).map fun s => wantedName options s.1 s.2.2) := by
    rw [← map_name_exportsFrom [] start, exportOutputs, outputs_exportOutputsFrom, List.nil_append,
      List.map_map]
    rfl
  rw [hnames, ← selectedOutputs_eq_filter]
  exact namedInTurn_exportNames _

end StepGraph.Plan
