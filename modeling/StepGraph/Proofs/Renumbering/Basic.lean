import Mathlib.Data.Option.Basic
import StepGraph.Artifact.Basic

/-!
# Other numbers for the registers

A compiled graph, and everything that arises while it is compiled, is *renumbered* by a function `f`
on registers: each register `r` in it is replaced by `f r`, and all else stays. An input that owns a
register owns the renumbered one afterwards, at the same place.

Renumbering by one function after another is renumbering by their composition.
-/

namespace StepGraph

universe u v w

namespace Entries

variable {κ : Type u} {α : Type v} {β : Type w} (f : α → β)

theorem keys_map (es : List (κ × α)) : keys (es.map (Prod.map id f)) = keys es := by
  rw [keys, keys, List.map_map]
  rfl

variable [DecidableEq κ]

theorem find?_map (k : κ) (es : List (κ × α)) :
    find? k (es.map (Prod.map id f)) = (find? k es).map f := by
  induction es with
  | nil => rfl
  | cons e es ih =>
      rw [List.map_cons, find?_cons, find?_cons, ih, apply_ite (Option.map f)]
      rfl

theorem insert_map (k : κ) (a : α) (es : List (κ × α)) :
    insert k (f a) (es.map (Prod.map id f)) = (insert k a es).map (Prod.map id f) := by
  induction es with
  | nil => rfl
  | cons e es ih =>
      rw [List.map_cons, insert_cons, insert_cons, ih, apply_ite (List.map (Prod.map id f))]
      rfl

theorem erase_map (k : κ) (es : List (κ × α)) :
    erase k (es.map (Prod.map id f)) = (erase k es).map (Prod.map id f) := by
  induction es with
  | nil => rfl
  | cons e es ih =>
      rw [List.map_cons, erase_cons, erase_cons, ih, apply_ite (List.map (Prod.map id f))]
      rfl

theorem update_map {change : α → α} {change' : β → β} (h : ∀ a, change' (f a) = f (change a))
    (k : κ) (es : List (κ × α)) :
    update k change' (es.map (Prod.map id f)) = (update k change es).map (Prod.map id f) := by
  induction es with
  | nil => rfl
  | cons e es ih =>
      rw [List.map_cons, update_cons, update_cons, ih, apply_ite (List.map (Prod.map id f))]
      simp [h]

end Entries

namespace OrderedMap

variable {κ : Type u} {α : Type v} {β : Type w} (f : α → β)

/-- The map with `f` applied to every value. -/
def mapValues (m : OrderedMap κ α) : OrderedMap κ β where
  entries := m.entries.map (Prod.map id f)
  nodup_keys := by
    rw [Entries.keys_map]
    exact m.nodup_keys

@[simp] theorem entries_mapValues (m : OrderedMap κ α) :
    (m.mapValues f).entries = m.entries.map (Prod.map id f) := rfl

@[simp] theorem mapValues_empty : (empty : OrderedMap κ α).mapValues f = empty := rfl

@[simp] theorem keys_mapValues (m : OrderedMap κ α) : (m.mapValues f).keys = m.keys :=
  Entries.keys_map f m.entries

theorem mapValues_mapValues {γ : Type*} (g : β → γ) (m : OrderedMap κ α) :
    (m.mapValues f).mapValues g = m.mapValues (g ∘ f) :=
  ext_entries (by rw [entries_mapValues, entries_mapValues, List.map_map]; rfl)

variable [DecidableEq κ]

@[simp] theorem find?_mapValues (m : OrderedMap κ α) (k : κ) :
    (m.mapValues f).find? k = (m.find? k).map f :=
  Entries.find?_map f k m.entries

@[simp] theorem contains_mapValues (m : OrderedMap κ α) (k : κ) :
    (m.mapValues f).contains k = m.contains k := by
  rw [contains, contains, find?_mapValues, Option.isSome_map]

theorem insert_mapValues (m : OrderedMap κ α) (k : κ) (a : α) :
    (m.mapValues f).insert k (f a) = (m.insert k a).mapValues f :=
  ext_entries (Entries.insert_map f k a m.entries)

theorem erase_mapValues (m : OrderedMap κ α) (k : κ) :
    (m.mapValues f).erase k = (m.erase k).mapValues f :=
  ext_entries (Entries.erase_map f k m.entries)

theorem update_mapValues {change : α → α} {change' : β → β} (h : ∀ a, change' (f a) = f (change a))
    (m : OrderedMap κ α) (k : κ) :
    (m.mapValues f).update k change' = (m.update k change).mapValues f :=
  ext_entries (Entries.update_map f h k m.entries)

end OrderedMap

/-! ## What is renumbered -/

variable (f : Register → Register)

def Input.renumber (i : Input) : Input := { i with registers := i.registers.map f }

def Output.renumber (o : Output) : Output := { o with consumers := o.consumers.map f }

def ExportedOutput.renumber (o : ExportedOutput) : ExportedOutput :=
  { o with register := f o.register }

/-- A surface with the registers of its inputs renumbered. -/
def Surface.renumber (m : InputMap) : InputMap := m.mapValues (Input.renumber f)

namespace Plan

def Node.renumber (n : Node) : Node :=
  { n with
    inputMap := n.inputMap.mapValues f
    inputs := n.inputs.map (Input.renumber f)
    slots := n.slots.map (Input.renumber f)
    outputs := n.outputs.map (Output.renumber f) }

def Allotment.renumber (a : Allotment) : Allotment := ⟨Surface.renumber f a.hidden, f a.next⟩

def Binding.renumber (b : Binding) : Binding :=
  ⟨b.inputMap.mapValues f, b.inputs.map (Input.renumber f), b.allotment.renumber f⟩

def NodeGraph.renumber (ng : NodeGraph) : NodeGraph :=
  ⟨ng.nodes.map (Node.renumber f), Surface.renumber f ng.hidden, f ng.next⟩

def Wiring.renumber (w : Wiring) : Wiring := { w with linked := w.linked.map f }

def Exports.renumber (e : Exports) : Exports :=
  ⟨e.outputs.map (ExportedOutput.renumber f), f e.next⟩

def Stage.renumber (g : Stage) : Stage :=
  { g with inputMap := g.inputMap.mapValues f, outputs := g.outputs.map (List.map f) }

end Plan

def Plan.renumber (p : Plan) : Plan :=
  { p with
    stages := p.stages.map (Stage.renumber f)
    inputs := Surface.renumber f p.inputs
    outputs := p.outputs.map (ExportedOutput.renumber f) }

def Artifact.renumber (a : Artifact) : Artifact := { a with plan := a.plan.renumber f }

/-! ## One renumbering after another -/

variable {f} (g : Register → Register)

theorem Input.renumber_renumber (i : Input) : (i.renumber f).renumber g = i.renumber (g ∘ f) := by
  simp [renumber]

theorem Surface.renumber_renumber (m : InputMap) :
    renumber g (renumber f m) = renumber (g ∘ f) m := by
  rw [renumber, renumber, OrderedMap.mapValues_mapValues]
  exact congrArg m.mapValues (funext fun i => i.renumber_renumber g)

theorem Plan.Stage.renumber_renumber (s : Stage) :
    (s.renumber f).renumber g = s.renumber (g ∘ f) := by
  simp [renumber, OrderedMap.mapValues_mapValues]

theorem Plan.renumber_renumber (p : Plan) : (p.renumber f).renumber g = p.renumber (g ∘ f) := by
  have hstage : Stage.renumber g ∘ Stage.renumber f = Stage.renumber (g ∘ f) :=
    funext fun s => s.renumber_renumber g
  have houtput : ExportedOutput.renumber g ∘ ExportedOutput.renumber f =
      ExportedOutput.renumber (g ∘ f) := rfl
  simp [renumber, Surface.renumber_renumber, hstage, houtput]

end StepGraph
