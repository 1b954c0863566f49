import StepGraph.Proofs.Comparison.Graph

/-!
# Nodes that are made from the same vertex

A node that is made twice, with its registers taken from two different first ones, has the same
inputs in the same places, and their registers lie equally far behind the first ones. Setting slots
apart and giving positional values goes by names and declarations only, so that it does the same
both times. The arguments are read from registers of inputs in the same places, or from those of
hidden inputs of the same name.
-/

namespace StepGraph

open Plan

namespace Register

variable {start start' r r' : Register}

theorem advance_advance (r : Register) (m n : Nat) :
    (r.advance m).advance n = r.advance (m + n) := by
  simp [advance, Nat.add_assoc]

theorem Shifted.refl (start start' : Register) : Shifted start start' start start' := ⟨0, rfl, rfl⟩

theorem Shifted.advance (h : Shifted start start' r r') (n : Nat) :
    Shifted start start' (r.advance n) (r'.advance n) := by
  obtain ⟨k, rfl, rfl⟩ := h
  exact ⟨k + n, advance_advance .., advance_advance ..⟩

theorem Shifted.trans {s s' : Register} (h : Shifted start start' s s') (h' : Shifted s s' r r') :
    Shifted start start' r r' := by
  obtain ⟨k, rfl, rfl⟩ := h'
  exact h.advance k

theorem biUnique_shifted (start start' : Register) : Relator.BiUnique (Shifted start start') := by
  constructor
  · rintro _ _ _ ⟨k, rfl, rfl⟩ ⟨k', rfl, heq⟩
    have hk : start'.index + k = start'.index + k' := congrArg index heq
    rw [Nat.add_left_cancel hk]
  · rintro _ _ _ ⟨k, rfl, rfl⟩ ⟨k', heq, rfl⟩
    have hk : start.index + k = start.index + k' := congrArg index heq
    rw [Nat.add_left_cancel hk]

end Register

/-- The vertices are the same but for their positions. -/
structure Vertex.Same (v v' : Vertex) : Prop where
  id : v.id = v'.id
  saved : v.saved = v'.saved
  step : v.step = v'.step

theorem Vertex.Same.refl (v : Vertex) : v.Same v := ⟨rfl, rfl, rfl⟩

variable {B : Register → Register → Prop}

theorem Input.Mirrors.imp {B' : Register → Register → Prop} {i i' : Input} (h : i.Mirrors B i')
    (himp : B i.register i'.register → B' i.register i'.register) : i.Mirrors B' i' :=
  ⟨h.declaration, h.single, h.single', himp h.register⟩

namespace Plan

/-! ## Inputs -/

theorem forall₂_freshInputs {start start' r r' : Register} (h : Register.Shifted start start' r r')
    (es : List (InputGroup × String × InputSpec)) :
    List.Forall₂ (Input.Mirrors (Register.Shifted start start')) (freshInputs r es)
      (freshInputs r' es) := by
  induction es generalizing r r' with
  | nil => exact List.Forall₂.nil
  | cons e es ih => exact List.Forall₂.cons ⟨rfl, rfl, rfl, h⟩ (ih (h.advance 1))

section

variable {is is' : List Input} (h : List.Forall₂ (Input.Mirrors B) is is')

include h

theorem rel_takeInput? (name : String) :
    Option.Rel (fun t t' => t.1.Mirrors B t'.1 ∧ List.Forall₂ (Input.Mirrors B) t.2 t'.2)
      (takeInput? name is) (takeInput? name is') := by
  induction h with
  | nil => exact Option.Rel.none
  | @cons i i' is is' hi his ih =>
      rw [takeInput?, takeInput?, hi.name]
      split
      · exact Option.Rel.some ⟨hi, his⟩
      · generalize takeInput? name is = t at ih ⊢
        generalize takeInput? name is' = t' at ih ⊢
        cases ih with
        | none => exact Option.Rel.none
        | some ht => exact Option.Rel.some ⟨ht.1, List.Forall₂.cons hi ht.2⟩

theorem forall₂_takeInputs {names : List String} {taken taken' rest rest' : List Input}
    (htake : takeInputs names is = some (taken, rest))
    (htake' : takeInputs names is' = some (taken', rest')) :
    List.Forall₂ (Input.Mirrors B) taken taken' ∧ List.Forall₂ (Input.Mirrors B) rest rest' := by
  induction names generalizing is is' taken taken' with
  | nil =>
      cases htake
      cases htake'
      exact ⟨List.Forall₂.nil, h⟩
  | cons name names ih =>
      obtain ⟨i, left, others, hi, hothers, rfl⟩ := takeInputs_cons_eq_some.1 htake
      obtain ⟨i', left', others', hi', hothers', rfl⟩ := takeInputs_cons_eq_some.1 htake'
      have hrel := rel_takeInput? h name
      rw [hi, hi'] at hrel
      cases hrel with
      | some hfirst =>
          obtain ⟨htaken, hrest⟩ := ih hfirst.2 hothers hothers'
          exact ⟨List.Forall₂.cons hfirst.1 htaken, hrest⟩

theorem forall₂_assignDefaults (values : List Json) :
    List.Forall₂ (Input.Mirrors B) (assignDefaults is values) (assignDefaults is' values) := by
  induction h generalizing values with
  | nil => exact List.Forall₂.nil
  | @cons i i' is is' hi his ih =>
      cases values with
      | nil => exact List.Forall₂.cons hi his
      | cons value values =>
          obtain ⟨hgroup, hrest⟩ := Prod.mk.inj hi.declaration
          obtain ⟨hname, hspec⟩ := Prod.mk.inj hrest
          have hcompanion : i.hasCompanion = i'.hasCompanion := by
            rw [Input.hasCompanion, Input.hasCompanion, Input.typeTag, Input.typeTag, hname, hspec]
          rw [assignDefaults, assignDefaults, hcompanion]
          refine List.Forall₂.cons ⟨?_, hi.single, hi.single', hi.register⟩ (ih _)
          simp only [Input.declaration, Input.withDefault, hgroup, hname, hspec]

end

/-! ## Maps -/

/-- The same names have related values, in the same order. -/
abbrev SameEntries {α β : Type*} (R : α → β → Prop) (es : List (String × α))
    (es' : List (String × β)) : Prop :=
  List.Forall₂ (fun e e' => e.1 = e'.1 ∧ R e.2 e'.2) es es'

namespace SameEntries

variable {α β : Type*} {R : α → β → Prop} {es : List (String × α)} {es' : List (String × β)}

theorem rel_find? (h : SameEntries R es es') (name : String) :
    Option.Rel R (Entries.find? name es) (Entries.find? name es') := by
  induction h with
  | nil => exact Option.Rel.none
  | cons he _ ih =>
      rw [Entries.find?_cons, Entries.find?_cons, he.1]
      split
      · exact Option.Rel.some he.2
      · exact ih

theorem insert (h : SameEntries R es es') (name : String) {a : α} {b : β} (hab : R a b) :
    SameEntries R (Entries.insert name a es) (Entries.insert name b es') := by
  induction h with
  | nil => exact List.Forall₂.cons ⟨rfl, hab⟩ List.Forall₂.nil
  | cons he hes ih =>
      rw [Entries.insert_cons, Entries.insert_cons, he.1]
      split
      · exact List.Forall₂.cons ⟨rfl, hab⟩ hes
      · exact List.Forall₂.cons he ih

theorem insertAll (h : SameEntries R es es') {m : OrderedMap String α} {m' : OrderedMap String β}
    (hm : SameEntries R m.entries m'.entries) :
    SameEntries R (m.insertAll es).entries (m'.insertAll es').entries := by
  induction h generalizing m m' with
  | nil => exact hm
  | @cons e e' es es' he _ ih =>
      rw [OrderedMap.insertAll_cons, OrderedMap.insertAll_cons]
      refine ih ?_
      rw [OrderedMap.entries_insert, OrderedMap.entries_insert, he.1]
      exact hm.insert e'.1 he.2

theorem zip (names : List String) {as : List α} {bs : List β} (h : List.Forall₂ R as bs) :
    SameEntries R (names.zip as) (names.zip bs) := by
  induction h generalizing names with
  | nil => simp
  | cons hab _ ih =>
      cases names with
      | nil => exact List.Forall₂.nil
      | cons name names => exact List.Forall₂.cons ⟨rfl, hab⟩ (ih names)

end SameEntries

end Plan

/-! ## Nodes -/

namespace Vertex

variable {hidden hidden' : InputMap} {start start' : Register} {v v' : Vertex} {n n' : Node}

namespace Makes

variable (h : v.Makes hidden start n) (h' : v'.Makes hidden' start' n') (hsame : v.Same v')

include h h' hsame

/-- Inputs in the same places have the same declarations and equally shifted registers. -/
theorem feeds_mirror :
    List.Forall₂ (Input.Mirrors (Register.Shifted start start')) n.feeds n'.feeds ∧
      n.slots.length = n'.slots.length := by
  obtain ⟨rest, htake, hinputs⟩ := h.separated
  obtain ⟨rest', htake', hinputs'⟩ := h'.separated
  rw [slotNames, ← hsame.saved, ← hsame.step] at htake'
  have hfresh := forall₂_freshInputs (Register.Shifted.refl start start') v.step.schema.visible
  obtain ⟨hslots, hrest⟩ := forall₂_takeInputs hfresh htake htake'
  rw [Node.feeds, Node.feeds, hinputs, hinputs', ← hsame.saved]
  exact ⟨List.rel_append hslots (forall₂_assignDefaults hrest _), hslots.length_eq⟩

/-- Each new register is that of an input in some place, the same place both times. -/
theorem exists_place {i : Input} {r' : Register}
    (hi : i ∈ freshInputs start v.step.schema.visible)
    (hr : Register.Shifted start start' i.register r') :
    ∃ (k : Nat) (j j' : Input), n.feeds[k]? = some j ∧ n'.feeds[k]? = some j' ∧
      j.register = i.register ∧ j'.register = r' := by
  have hperm := h.perm_feeds (f := Input.register) fun _ _ => rfl
  obtain ⟨j, hj, hji⟩ := List.mem_map.1 (hperm.mem_iff.2 (List.mem_map_of_mem hi))
  obtain ⟨k, hk⟩ := List.mem_iff_getElem?.1 hj
  obtain ⟨j', hk', hmirrors⟩ := exists_getElem?_of_forall₂ (h.feeds_mirror h' hsame).1 hk
  rw [← hji] at hr
  exact ⟨k, j, j', hk, hk', hji,
    (Register.biUnique_shifted start start').2 hmirrors.register hr⟩

/-- If inputs in the same places and hidden inputs of the same names have related registers, the
nodes mirror each other. -/
theorem mirrors
    (hfeeds : ∀ (k : Nat) (i i' : Input), n.feeds[k]? = some i → n'.feeds[k]? = some i' →
      B i.register i'.register)
    (hhidden : ∀ e ∈ v.step.schema.hidden.entries,
      B (hiddenRegister hidden e.1) (hiddenRegister hidden' e.1)) : n.Mirrors B n' where
  id := by rw [h.id, h'.id, hsame.id]
  type := by rw [h.type, h'.type, hsame.saved]
  step := by rw [h.step, h'.step, hsame.step]
  reads := by
    rw [h.inputMap, h'.inputMap, argumentMap, argumentMap, ← hsame.step]
    refine SameEntries.insertAll (List.rel_append ?_ ?_) List.Forall₂.nil
    · rw [List.forall₂_map_left_iff, List.forall₂_map_right_iff, List.forall₂_iff_zip]
      have hfresh := forall₂_freshInputs (Register.Shifted.refl start start') v.step.schema.visible
      refine ⟨hfresh.length_eq, fun {i i'} hi => ?_⟩
      have hmirrors := (List.forall₂_iff_zip.1 hfresh).2 hi
      obtain ⟨k, j, j', hj, hj', hji, hji'⟩ :=
        h.exists_place h' hsame (List.of_mem_zip hi).1 hmirrors.register
      exact ⟨hmirrors.name, hji ▸ hji' ▸ hfeeds k j j' hj hj'⟩
    · rw [List.forall₂_map_left_iff, List.forall₂_map_right_iff]
      exact List.forall₂_same.2 fun e he => ⟨rfl, hhidden e he⟩
  feeds := by
    obtain ⟨hshifted, -⟩ := h.feeds_mirror h' hsame
    refine List.forall₂_iff_get.2 ⟨hshifted.length_eq, fun k hk hk' => ?_⟩
    refine (hshifted.get hk hk').imp fun _ => ?_
    exact hfeeds k _ _ (List.getElem?_eq_getElem hk) (List.getElem?_eq_getElem hk')
  slots := (h.feeds_mirror h' hsame).2
  outputs := by rw [h.outputs, h'.outputs, hsame.step]

end Makes

end Vertex

end StepGraph
