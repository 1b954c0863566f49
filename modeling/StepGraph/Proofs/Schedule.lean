import Mathlib.Data.Finite.Prod
import Mathlib.Data.List.Lex
import Mathlib.Logic.Relation
import Mathlib.Order.WellFounded
import StepGraph.Plan.Basic

/-!
# Schedules are the least valid orders

A valid order of `count` positions is a permutation of them in which every position comes after
those it depends on. `schedule` builds one from left to right, and in every round it takes the
least position that may come next. So an order it returns is valid, and no valid order is
lexicographically less.

It fails only if a round finds no position. Then each position that is left depends on another one
that is left, and following those dependencies runs into a cycle, because there are finitely many
positions. The same walk bounds the dependencies of a valid order: they lead to earlier and earlier
places, so that no position depends on itself.
-/

namespace StepGraph.Plan

variable {count : Nat} {dependencies : List (List Nat)} {order : List Nat}

/-- The position `i` depends on the position `d`. -/
def DependsOn (dependencies : List (List Nat)) (i d : Nat) : Prop :=
  d ∈ dependenciesOf dependencies i

/-- Every position of the order comes after those it depends on. -/
def Respects (dependencies : List (List Nat)) (order : List Nat) : Prop :=
  ∀ before i after, order = before ++ i :: after →
    ∀ d ∈ dependenciesOf dependencies i, d ∈ before

/-- The order is made of all positions and respects their dependencies. -/
structure IsSchedule (count : Nat) (dependencies : List (List Nat)) (order : List Nat) : Prop where
  perm : order.Perm (List.range count)
  respects : Respects dependencies order

/-- The beginning of a schedule: some positions, each once and after those it depends on. -/
structure IsPartialSchedule (count : Nat) (dependencies : List (List Nat)) (order : List Nat) :
    Prop where
  nodup : order.Nodup
  lt_count : ∀ i ∈ order, i < count
  respects : Respects dependencies order

/-- The first list is the second one or comes before it in the lexicographic order of `r`. -/
def LexLE {α : Type*} (r : α → α → Prop) (l l' : List α) : Prop := l = l' ∨ List.Lex r l l'

theorem LexLE.cons {α : Type*} {r : α → α → Prop} {l l' : List α} (a : α) (h : LexLE r l l') :
    LexLE r (a :: l) (a :: l') := by
  rcases h with rfl | h
  · exact Or.inl rfl
  · exact Or.inr (List.Lex.cons h)

/-! ## What a round does -/

theorem isReady_iff {i : Nat} :
    isReady dependencies order i = true ↔
      i ∉ order ∧ ∀ d ∈ dependenciesOf dependencies i, d ∈ order := by
  simp [isReady]

section

variable {dependencies' : List (List Nat)}
  (h : ∀ i d, DependsOn dependencies i d ↔ DependsOn dependencies' i d)

include h

theorem isReady_congr (order : List Nat) (i : Nat) :
    isReady dependencies order i = isReady dependencies' order i := by
  simp only [DependsOn] at h
  rw [Bool.eq_iff_iff, isReady_iff, isReady_iff]
  simp only [h]

theorem scheduleFrom_congr (rounds : Nat) (order : List Nat) :
    scheduleFrom count dependencies rounds order =
      scheduleFrom count dependencies' rounds order := by
  induction rounds generalizing order with
  | zero => rfl
  | succ rounds ih =>
      have hnext : nextReady? count dependencies order = nextReady? count dependencies' order := by
        rw [nextReady?, nextReady?, funext (isReady_congr h order)]
      simp only [scheduleFrom, hnext, ih]

/-- Which positions a position depends on matters, not how they are listed. -/
theorem schedule_congr : schedule count dependencies = schedule count dependencies' :=
  scheduleFrom_congr h count []

end

theorem nextReady?_eq_some {i : Nat} (h : nextReady? count dependencies order = some i) :
    i < count ∧ isReady dependencies order i = true ∧
      ∀ j < i, isReady dependencies order j = false := by
  obtain ⟨hi, hcount, hleast⟩ := List.find?_range_eq_some.1 h
  exact ⟨by simpa using hcount, hi, fun j hj => by simpa using hleast j hj⟩

/-- If a round finds no position, every position that is left depends on one that is not placed. -/
theorem nextReady?_eq_none (h : nextReady? count dependencies order = none) {i : Nat}
    (hi : i < count) (hleft : i ∉ order) : ∃ d ∈ dependenciesOf dependencies i, d ∉ order := by
  have hready : isReady dependencies order i = false := by
    simpa using List.find?_eq_none.1 h i (List.mem_range.2 hi)
  by_contra hnone
  push Not at hnone
  rw [isReady_iff.2 ⟨hleft, hnone⟩] at hready
  exact absurd hready (by simp)

theorem respects_nil : Respects dependencies [] := by
  intro before i after h
  simp at h

/-- The last position of an order has to come after those it depends on, like all others. -/
theorem respects_append_singleton {i : Nat} :
    Respects dependencies (order ++ [i]) ↔
      Respects dependencies order ∧ ∀ d ∈ dependenciesOf dependencies i, d ∈ order := by
  constructor
  · intro h
    refine ⟨?_, h order i [] rfl⟩
    intro before j after horder
    exact h before j (after ++ [i]) (by simp [horder])
  · rintro ⟨horder, hi⟩ before j after h
    rcases List.eq_nil_or_concat after with rfl | ⟨after, k, rfl⟩
    · obtain ⟨rfl, hij⟩ := List.append_inj' h rfl
      cases hij
      exact hi
    · have hsplit : order ++ [i] = (before ++ j :: after) ++ [k] := by simp [h]
      exact horder before j after (List.append_inj' hsplit rfl).1

namespace IsPartialSchedule

theorem nil : IsPartialSchedule count dependencies [] :=
  ⟨List.nodup_nil, by simp, respects_nil⟩

theorem place (h : IsPartialSchedule count dependencies order) {i : Nat} (hi : i < count)
    (hready : isReady dependencies order i = true) :
    IsPartialSchedule count dependencies (order ++ [i]) := by
  obtain ⟨hnew, hdeps⟩ := isReady_iff.1 hready
  refine ⟨?_, ?_, respects_append_singleton.2 ⟨h.respects, hdeps⟩⟩
  · exact List.nodup_append.2 ⟨h.nodup, by simp, by rintro x hx y hy rfl; simp_all⟩
  · intro j hj
    rcases List.mem_append.1 hj with hj | hj
    · exact h.lt_count j hj
    · rwa [List.mem_singleton.1 hj]

theorem isSchedule (h : IsPartialSchedule count dependencies order)
    (hlength : order.length = count) : IsSchedule count dependencies order := by
  have hsub : order.Subperm (List.range count) :=
    h.nodup.subperm fun i hi => List.mem_range.2 (h.lt_count i hi)
  exact ⟨hsub.perm_of_length_le (by simp [hlength]), h.respects⟩

end IsPartialSchedule

theorem IsSchedule.nodup (h : IsSchedule count dependencies order) : order.Nodup :=
  h.perm.nodup_iff.2 List.nodup_range

theorem IsSchedule.mem_iff (h : IsSchedule count dependencies order) {i : Nat} :
    i ∈ order ↔ i < count := by
  rw [h.perm.mem_iff, List.mem_range]

/-! ## What the rounds do -/

/-- The rounds go on with the beginning of a schedule, one position each. -/
theorem IsPartialSchedule.scheduleFrom {rounds : Nat} {result : List Nat}
    (h : IsPartialSchedule count dependencies order)
    (hresult : scheduleFrom count dependencies rounds order = .ok result) :
    IsPartialSchedule count dependencies result ∧ result.length = order.length + rounds := by
  induction rounds generalizing order with
  | zero =>
      cases hresult
      exact ⟨h, rfl⟩
  | succ rounds ih =>
      rw [Plan.scheduleFrom] at hresult
      split at hresult
      · next i hnext =>
        obtain ⟨hi, hready, -⟩ := nextReady?_eq_some hnext
        obtain ⟨hpartial, hlength⟩ := ih (h.place hi hready) hresult
        refine ⟨hpartial, ?_⟩
        rw [hlength, List.length_append, List.length_singleton]
        omega
      · cases hresult

theorem scheduleFrom_prefix {rounds : Nat} {result : List Nat}
    (hresult : scheduleFrom count dependencies rounds order = .ok result) :
    order <+: result := by
  induction rounds generalizing order with
  | zero =>
      cases hresult
      exact List.prefix_rfl
  | succ rounds ih =>
      rw [scheduleFrom] at hresult
      split at hresult
      · exact (List.prefix_append _ _).trans (ih hresult)
      · cases hresult

theorem schedule_isSchedule (h : schedule count dependencies = .ok order) :
    IsSchedule count dependencies order := by
  obtain ⟨hpartial, hlength⟩ := IsPartialSchedule.nil.scheduleFrom h
  exact hpartial.isSchedule (by simpa using hlength)

theorem isReady_of_isSchedule {i : Nat} {rest : List Nat}
    (h : IsSchedule count dependencies (order ++ i :: rest)) :
    i < count ∧ isReady dependencies order i = true := by
  have hnodup := List.nodup_append.1 h.nodup
  refine ⟨h.mem_iff.1 (by simp), isReady_iff.2 ⟨?_, h.respects order i rest rfl⟩⟩
  intro hi
  exact hnodup.2.2 i hi i (by simp) rfl

/-- The rounds go on in the least way: no other continuation of `order` to a schedule is less. -/
theorem scheduleFrom_least {rounds : Nat} {result rest : List Nat}
    (hresult : scheduleFrom count dependencies rounds order = .ok result)
    (hrest : IsSchedule count dependencies (order ++ rest)) (hlength : rest.length = rounds) :
    ∃ tail, result = order ++ tail ∧ LexLE (· < ·) tail rest := by
  induction rounds generalizing order rest with
  | zero =>
      cases hresult
      exact ⟨[], by simp, Or.inl (List.eq_nil_of_length_eq_zero hlength).symm⟩
  | succ rounds ih =>
      obtain ⟨j, rest, rfl⟩ := List.exists_cons_of_length_eq_add_one hlength
      obtain ⟨hj, hready⟩ := isReady_of_isSchedule hrest
      rw [scheduleFrom] at hresult
      split at hresult
      · next i hnext =>
        obtain ⟨-, -, hleast⟩ := nextReady?_eq_some hnext
        have hij : i ≤ j := by
          by_contra hlt
          rw [hleast j (by omega)] at hready
          exact absurd hready (by simp)
        rcases Nat.lt_or_eq_of_le hij with hij | rfl
        · -- the first difference is here, whatever comes after it
          obtain ⟨tail, htail⟩ : ∃ tail, result = order ++ i :: tail := by
            obtain ⟨tail, htail⟩ := scheduleFrom_prefix hresult
            exact ⟨tail, by simpa using htail.symm⟩
          exact ⟨i :: tail, htail, Or.inr (List.Lex.rel hij)⟩
        · obtain ⟨tail, htail, hle⟩ := ih hresult (by simpa using hrest) (by simpa using hlength)
          exact ⟨i :: tail, by simpa using htail, hle.cons i⟩
      · cases hresult

/-! ## When there is a schedule -/

/-- If every element of a finite set leads to one of the set, each leads to one that leads back to
itself. -/
theorem exists_cycle_of_closed {α : Type*} {r : α → α → Prop} {s : Finset α}
    (hclosed : ∀ a ∈ s, ∃ b ∈ s, r a b) {a : α} (ha : a ∈ s) :
    ∃ c ∈ s, Relation.ReflTransGen r a c ∧ Relation.TransGen r c c := by
  by_contra hnone
  push Not at hnone
  -- without a cycle, leading to an element is a strict order on what `a` leads to
  let below (x y : {c : s // Relation.ReflTransGen r a c}) : Prop := Relation.TransGen r y.1 x.1
  have : IsTrans _ below := ⟨fun x y z hxy hyz => Relation.TransGen.trans hyz hxy⟩
  have : Std.Irrefl below := ⟨fun x hx => hnone x.1 x.1.2 x.2 hx⟩
  have hwf : WellFounded below := Finite.wellFounded_of_trans_of_irrefl below
  obtain ⟨x, -, hleast⟩ := hwf.has_min Set.univ ⟨⟨⟨a, ha⟩, Relation.ReflTransGen.refl⟩, trivial⟩
  obtain ⟨b, hb, hxb⟩ := hclosed x.1 x.1.2
  exact hleast ⟨⟨b, hb⟩, x.2.tail hxb⟩ trivial (Relation.TransGen.single hxb)

/-- In an order that respects dependencies, all that a position depends on, through others too,
comes before it. -/
theorem Respects.mem_of_transGen (h : Respects dependencies order) {i d : Nat}
    (hdep : Relation.TransGen (DependsOn dependencies) i d) {before after : List Nat}
    (horder : order = before ++ i :: after) : d ∈ before := by
  induction hdep with
  | single hd => exact h before i after horder _ hd
  | @tail b c _ hd ih =>
      obtain ⟨first, second, rfl⟩ := List.append_of_mem ih
      have hc : c ∈ first := h first b (second ++ i :: after) (by simp [horder]) c hd
      exact List.mem_append_left _ hc

theorem IsSchedule.acyclic (h : IsSchedule count dependencies order) {i : Nat} (hi : i < count) :
    ¬ Relation.TransGen (DependsOn dependencies) i i := by
  intro hcycle
  obtain ⟨before, after, horder⟩ := List.append_of_mem (h.mem_iff.2 hi)
  have hbefore : i ∈ before := h.respects.mem_of_transGen hcycle horder
  have hnodup : (before ++ i :: after).Nodup := horder ▸ h.nodup
  exact (List.nodup_append.1 hnodup).2.2 i hbefore i (by simp) rfl

/-- A round that finds nothing while positions are left means that one of them depends on itself,
through others or not. -/
theorem exists_cycle_of_nextReady?_eq_none
    (hrange : ∀ i < count, ∀ d ∈ dependenciesOf dependencies i, d < count)
    (hnext : nextReady? count dependencies order = none) {i : Nat} (hi : i < count)
    (hleft : i ∉ order) :
    ∃ c < count, c ∉ order ∧ Relation.ReflTransGen (DependsOn dependencies) i c ∧
      Relation.TransGen (DependsOn dependencies) c c := by
  have hclosed : ∀ a ∈ (Finset.range count).filter (· ∉ order),
      ∃ b ∈ (Finset.range count).filter (· ∉ order), DependsOn dependencies a b := by
    intro a ha
    obtain ⟨ha, hleft⟩ := Finset.mem_filter.1 ha
    obtain ⟨d, hd, hdleft⟩ := nextReady?_eq_none hnext (Finset.mem_range.1 ha) hleft
    have hdcount : d < count := hrange a (Finset.mem_range.1 ha) d hd
    exact ⟨d, Finset.mem_filter.2 ⟨Finset.mem_range.2 hdcount, hdleft⟩, hd⟩
  obtain ⟨c, hc, hic, hcc⟩ :=
    exists_cycle_of_closed hclosed (Finset.mem_filter.2 ⟨Finset.mem_range.2 hi, hleft⟩)
  obtain ⟨hccount, hcleft⟩ := Finset.mem_filter.1 hc
  exact ⟨c, Finset.mem_range.1 hccount, hcleft, hic, hcc⟩

theorem scheduleFrom_isOk {rounds : Nat}
    (hrange : ∀ i < count, ∀ d ∈ dependenciesOf dependencies i, d < count)
    (hacyclic : ∀ i < count, ¬ Relation.TransGen (DependsOn dependencies) i i)
    (hpartial : IsPartialSchedule count dependencies order)
    (hlength : order.length + rounds = count) :
    ∃ result, scheduleFrom count dependencies rounds order = .ok result := by
  induction rounds generalizing order with
  | zero => exact ⟨order, rfl⟩
  | succ rounds ih =>
      rw [scheduleFrom]
      split
      · next i hnext =>
        obtain ⟨hi, hready, -⟩ := nextReady?_eq_some hnext
        exact ih (hpartial.place hi hready) (by rw [List.length_append]; simp; omega)
      · next hnext =>
        have hleft : ∃ i < count, i ∉ order := by
          by_contra hall
          push Not at hall
          have hsub : (List.range count).Subperm order :=
            List.nodup_range.subperm fun i hi => hall i (List.mem_range.1 hi)
          have := hsub.length_le
          rw [List.length_range] at this
          omega
        obtain ⟨i, hi, hinot⟩ := hleft
        obtain ⟨c, hc, -, -, hcycle⟩ :=
          exists_cycle_of_nextReady?_eq_none hrange hnext hi hinot
        exact absurd hcycle (hacyclic c hc)

/-- There is an order if and only if no position depends on itself, through others or not. -/
theorem schedule_isOk_iff
    (hrange : ∀ i < count, ∀ d ∈ dependenciesOf dependencies i, d < count) :
    (∃ order, schedule count dependencies = .ok order) ↔
      ∀ i < count, ¬ Relation.TransGen (DependsOn dependencies) i i := by
  constructor
  · rintro ⟨order, horder⟩ i hi
    exact (schedule_isSchedule horder).acyclic hi
  · intro hacyclic
    exact scheduleFrom_isOk hrange hacyclic IsPartialSchedule.nil (by simp)

/-- A returned order is not lexicographically above any schedule. -/
theorem schedule_least {other : List Nat} (h : schedule count dependencies = .ok order)
    (hother : IsSchedule count dependencies other) : LexLE (· < ·) order other := by
  have hlength : other.length = count := by simpa using hother.perm.length_eq
  obtain ⟨tail, rfl, hle⟩ := scheduleFrom_least h (by simpa using hother) hlength
  simpa using hle

end StepGraph.Plan
