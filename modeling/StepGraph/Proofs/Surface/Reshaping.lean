import Mathlib.Data.List.Perm.Basic
import Mathlib.Logic.Relation
import StepGraph.Plan.Basic

/-!
# Merging and renaming inputs

A `Reshaping` of a plan is a merge or a renaming of its inputs. Whatever the mapping says, it comes
down to moves of two kinds: an input hands its registers to another one of the same type and is
gone, or an input moves to a name that is free. What does not apply is passed over. So what every
`Move` keeps, every sequence of reshapings keeps.

Moves keep the registers that the inputs own, each as often as before. So an input that owns a
register is still there under some name.
-/

namespace StepGraph

open Plan

namespace Surface

/-! ## Moves -/

/-- One input hands its registers to another one of the same type, or moves to a free name. -/
inductive Move (m : InputMap) : InputMap → Prop
  | merge {source target : String} {merged i : Input} (hsource : m.find? source = some merged)
    (htarget : m.find? target = some i) (hne : source ≠ target)
    (htype : merged.typeTag = i.typeTag) :
    Move m ((m.erase source).update target fun i =>
      { i with registers := i.registers ++ merged.registers })
  | rename {old new : String} {i : Input} (hold : m.find? old = some i) (hnew : new ∉ m.keys) :
    Move m ((m.erase old).insert new i)

abbrev Moves : InputMap → InputMap → Prop := Relation.ReflTransGen Move

variable {m m' m'' : InputMap}

/-- While its sources are merged, the target stays on the surface and keeps its type. -/
theorem moves_mergeSource {target targetType source : String} {r : Reshaped}
    (h : ∃ i, r.1.find? target = some i ∧ i.typeTag = targetType) :
    Moves r.1 (mergeSource target targetType r source).1 ∧
      ∃ i, (mergeSource target targetType r source).1.find? target = some i ∧
        i.typeTag = targetType := by
  obtain ⟨inputs, warnings⟩ := r
  obtain ⟨i, hi, hitype⟩ := h
  simp only [mergeSource]
  by_cases hne : source = target
  · rw [if_pos hne]
    exact ⟨.refl, i, hi, hitype⟩
  rw [if_neg hne]
  split
  · exact ⟨.refl, i, hi, hitype⟩
  · next merged hmerged =>
    split
    · exact ⟨.refl, i, hi, hitype⟩
    · next htype =>
      have hsame : merged.typeTag = i.typeTag := (Decidable.not_not.1 htype).trans hitype.symm
      refine ⟨.single (.merge hmerged hi hne hsame), { i with
        registers := i.registers ++ merged.registers }, ?_, hitype⟩
      have hfind : Entries.find? target (Entries.erase source inputs.entries) = some i :=
        (Entries.find?_erase_of_ne hne).trans hi
      rw [OrderedMap.find?, OrderedMap.entries_update, Entries.find?_update_self,
        OrderedMap.entries_erase, hfind]
      rfl

theorem moves_mergeSources {target tag : String} (sources : List String) {r : Reshaped}
    (h : ∃ i, r.1.find? target = some i ∧ i.typeTag = tag) :
    Moves r.1 (sources.foldl (mergeSource target tag) r).1 := by
  induction sources generalizing r with
  | nil => exact .refl
  | cons source sources ih =>
      obtain ⟨hmoves, hthere⟩ := @moves_mergeSource target tag source r h
      exact hmoves.trans (ih hthere)

theorem moves_mergeEntry (r : Reshaped) (entry : String × List String) :
    Moves r.1 (mergeEntry r entry).1 := by
  rw [mergeEntry]
  split
  · exact .refl
  · next target htarget => exact moves_mergeSources entry.2 ⟨target, htarget, rfl⟩

theorem moves_renameEntry (r : Reshaped) (entry : String × String) :
    Moves r.1 (renameEntry r entry).1 := by
  rw [renameEntry]
  split
  · exact .refl
  · next i hi =>
    split
    · exact .refl
    · next hnew =>
      refine .single (.rename hi fun hmem => hnew ?_)
      obtain ⟨j, hj⟩ := OrderedMap.mem_keys_iff.1 hmem
      rw [OrderedMap.contains, hj]
      rfl

theorem moves_foldl {α : Type} {f : Reshaped → α → Reshaped}
    (hf : ∀ r a, Moves r.1 (f r a).1) (as : List α) (r : Reshaped) :
    Moves r.1 (as.foldl f r).1 := by
  induction as generalizing r with
  | nil => exact .refl
  | cons a as ih => exact (hf r a).trans (ih (f r a))

/-- The entries of a mapping, each with the surface and the warnings that it meets. -/
def turns {α : Type} (f : Reshaped → α → Reshaped) : Reshaped → List α → List (Reshaped × α)
  | _, [] => []
  | r, a :: as => (r, a) :: turns f (f r a) as

theorem turns_append {α : Type} (f : Reshaped → α → Reshaped) (r : Reshaped) (as bs : List α) :
    turns f r (as ++ bs) = turns f r as ++ turns f (as.foldl f r) bs := by
  induction as generalizing r with
  | nil => rfl
  | cons a as ih => rw [List.cons_append, turns, ih, turns, List.cons_append, List.foldl_cons]

theorem moves_merge (inputs : InputMap) (mapping : OrderedMap String (List String)) :
    Moves inputs (merge inputs mapping).1 :=
  moves_foldl moves_mergeEntry mapping.entries (inputs, [])

theorem moves_rename (inputs : InputMap) (mapping : OrderedMap String String) :
    Moves inputs (rename inputs mapping).1 :=
  moves_foldl moves_renameEntry mapping.entries (inputs, [])

/-! ## Moves keep registers -/

/-- The registers that the inputs of a surface own. -/
def registers (m : InputMap) : List Register := m.values.flatMap Input.registers

theorem mem_registers_iff {r : Register} :
    r ∈ registers m ↔ ∃ name i, m.find? name = some i ∧ r ∈ i.registers := by
  simp only [registers, OrderedMap.values, List.mem_flatMap, List.mem_map,
    OrderedMap.find?_eq_some_iff]
  constructor
  · rintro ⟨i, ⟨⟨name, i⟩, hi, rfl⟩, hr⟩
    exact ⟨name, i, hi, hr⟩
  · rintro ⟨name, i, hi, hr⟩
    exact ⟨i, ⟨(name, i), hi, rfl⟩, hr⟩

/-- The second surface owns the registers of the first one, each as often, and if no input was
without registers then none is. -/
structure Keeps (m m' : InputMap) : Prop where
  perm : (registers m').Perm (registers m)
  nonempty : (∀ i ∈ m.values, i.registers ≠ []) → ∀ i ∈ m'.values, i.registers ≠ []

theorem Keeps.refl (m : InputMap) : Keeps m m := ⟨List.Perm.refl _, fun h => h⟩

theorem Keeps.trans (h : Keeps m m') (h' : Keeps m' m'') : Keeps m m'' :=
  ⟨h'.perm.trans h.perm, fun hm => h'.nonempty (h.nonempty hm)⟩

/-- Dropping one input and changing another one leaves all others. -/
theorem exists_values_erase_update {source target : String} {merged i : Input}
    (hsource : m.find? source = some merged) (htarget : m.find? target = some i)
    (hne : source ≠ target) (f : Input → Input) :
    ∃ others, m.values.Perm (merged :: i :: others) ∧
      ((m.erase source).update target f).values.Perm (f i :: others) := by
  obtain ⟨first, rest, hm, herase, -⟩ := Entries.exists_of_find?_eq_some hsource
  have hfind : Entries.find? target (Entries.erase source m.entries) = some i :=
    (Entries.find?_erase_of_ne hne).trans htarget
  obtain ⟨before, after, hleft, -, hupdate⟩ := Entries.exists_of_find?_eq_some hfind
  rw [herase] at hleft
  refine ⟨(before ++ after).map Prod.snd, ?_, ?_⟩
  · have hsplit : m.entries.Perm ((source, merged) :: (target, i) :: (before ++ after)) := by
      rw [hm]
      refine List.perm_middle.trans (List.Perm.cons _ ?_)
      rw [hleft]
      exact List.perm_middle
    exact hsplit.map Prod.snd
  · rw [OrderedMap.values, OrderedMap.entries_update, OrderedMap.entries_erase, hupdate]
    exact List.perm_middle.map Prod.snd

/-- Handing the registers of one input to another one keeps them. -/
theorem keeps_erase_update {source target : String} {merged i : Input}
    (hsource : m.find? source = some merged) (htarget : m.find? target = some i)
    (hne : source ≠ target) :
    Keeps m ((m.erase source).update target fun i =>
      { i with registers := i.registers ++ merged.registers }) := by
  obtain ⟨others, hm, hupdate⟩ := exists_values_erase_update hsource htarget hne
    fun i => { i with registers := i.registers ++ merged.registers }
  constructor
  · refine (hupdate.flatMap_right _).trans (List.Perm.trans ?_ (hm.flatMap_right _).symm)
    simp only [List.flatMap_cons]
    rw [← List.append_assoc merged.registers]
    exact List.perm_append_comm.append_right _
  · intro h j hj
    rcases List.mem_cons.1 (hupdate.mem_iff.1 hj) with rfl | hj
    · have hi : i.registers ≠ [] := h i (hm.mem_iff.2 (by simp))
      simp [hi]
    · exact h j (hm.mem_iff.2 (by simp [hj]))

/-- Moving an input to a free name leaves all inputs as they are. -/
theorem values_erase_insert_perm {old new : String} {i : Input} (hold : m.find? old = some i)
    (hnew : new ∉ m.keys) : ((m.erase old).insert new i).values.Perm m.values := by
  obtain ⟨before, after, hm, herase, -⟩ := Entries.exists_of_find?_eq_some hold
  have hfree : new ∉ (m.erase old).keys := fun h =>
    hnew (((Entries.erase_sublist old m.entries).map Prod.fst).mem h)
  have hentries : ((m.erase old).insert new i).entries = before ++ after ++ [(new, i)] := by
    rw [OrderedMap.entries_insert_of_not_mem hfree, OrderedMap.entries_erase, herase]
  rw [OrderedMap.values, OrderedMap.values, hentries, hm]
  simp only [List.map_append, List.map_cons, List.map_nil, List.append_assoc]
  refine List.Perm.append_left _ ?_
  exact List.perm_append_comm

theorem Move.keeps (h : Move m m') : Keeps m m' := by
  cases h with
  | merge hsource htarget hne _ => exact keeps_erase_update hsource htarget hne
  | rename hold hnew =>
      have hperm := values_erase_insert_perm hold hnew
      exact ⟨hperm.flatMap_right _, fun h j hj => h j (hperm.mem_iff.1 hj)⟩

theorem Moves.keeps (h : Moves m m') : Keeps m m' := by
  induction h with
  | refl => exact Keeps.refl m
  | tail _ hmove ih => exact ih.trans hmove.keeps

/-! ## Moves keep types -/

/-- Every input has a type that `P` allows for its registers. -/
def Typed (P : Register → String → Prop) (m : InputMap) : Prop :=
  ∀ i ∈ m.values, ∀ r ∈ i.registers, P r i.typeTag

theorem Move.typed {P : Register → String → Prop} (h : Move m m') (hm : Typed P m) :
    Typed P m' := by
  cases h with
  | @merge source target merged i hsource htarget hne htype =>
      obtain ⟨others, hbefore, hafter⟩ := exists_values_erase_update hsource htarget hne
        fun i => { i with registers := i.registers ++ merged.registers }
      have hthere : ∀ j ∈ merged :: i :: others, ∀ r ∈ j.registers, P r j.typeTag :=
        fun j hj => hm j (hbefore.mem_iff.2 hj)
      simp only [List.forall_mem_cons] at hthere
      obtain ⟨hmerged, hi, hothers⟩ := hthere
      intro j hj r hr
      rcases List.mem_cons.1 (hafter.mem_iff.1 hj) with rfl | hj
      · rcases List.mem_append.1 hr with hr | hr
        · exact hi r hr
        · exact htype ▸ hmerged r hr
      · exact hothers j hj r hr
  | rename hold hnew => exact fun j hj => hm j ((values_erase_insert_perm hold hnew).mem_iff.1 hj)

theorem Moves.typed {P : Register → String → Prop} (h : Moves m m') (hm : Typed P m) :
    Typed P m' := by
  induction h with
  | refl => exact hm
  | tail _ hmove ih => exact hmove.typed ih

end Surface

namespace Plan

/-- A merge or a renaming of inputs. -/
inductive Reshaping
  | merge (mapping : OrderedMap String (List String))
  | rename (mapping : OrderedMap String String)

/-- The plan with its inputs merged or renamed. -/
def reshape (p : Plan) : Reshaping → Plan
  | .merge mapping => (p.mergeInputs mapping).1
  | .rename mapping => (p.renameInputs mapping).1

/-- The plan after several merges and renamings. -/
def reshapeAll (p : Plan) (rs : List Reshaping) : Plan := rs.foldl reshape p

theorem stages_reshape (p : Plan) (r : Reshaping) : (p.reshape r).stages = p.stages := by
  cases r <;> rfl

theorem outputs_reshape (p : Plan) (r : Reshaping) : (p.reshape r).outputs = p.outputs := by
  cases r <;> rfl

theorem moves_reshape (p : Plan) (r : Reshaping) : Surface.Moves p.inputs (p.reshape r).inputs := by
  cases r with
  | merge mapping => exact Surface.moves_merge p.inputs mapping
  | rename mapping => exact Surface.moves_rename p.inputs mapping

/-- Reshapings leave the stages and the outputs, and move the inputs. -/
theorem reshapeAll_moves (p : Plan) (rs : List Reshaping) :
    (p.reshapeAll rs).stages = p.stages ∧ (p.reshapeAll rs).outputs = p.outputs ∧
      Surface.Moves p.inputs (p.reshapeAll rs).inputs := by
  induction rs generalizing p with
  | nil => exact ⟨rfl, rfl, .refl⟩
  | cons r rs ih =>
      obtain ⟨hstages, houtputs, hmoves⟩ := ih (p.reshape r)
      exact ⟨hstages.trans (p.stages_reshape r), houtputs.trans (p.outputs_reshape r),
        (p.moves_reshape r).trans hmoves⟩

/-- Merges and renamings leave the stages and the outputs, and the registers of the inputs. -/
theorem reshapeAll_keeps (p : Plan) (rs : List Reshaping) :
    (p.reshapeAll rs).stages = p.stages ∧ (p.reshapeAll rs).outputs = p.outputs ∧
      Surface.Keeps p.inputs (p.reshapeAll rs).inputs := by
  obtain ⟨hstages, houtputs, hmoves⟩ := p.reshapeAll_moves rs
  exact ⟨hstages, houtputs, hmoves.keeps⟩

end Plan

end StepGraph
