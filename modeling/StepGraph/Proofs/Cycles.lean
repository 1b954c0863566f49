import StepGraph.Proofs.Topological

/-!
# What a failed schedule reports

A position is on a cycle if it depends on itself, through others or not, and it is blocked if it is
on a cycle or depends on a position that is. A blocked position cannot be placed, because everything
it depends on has to be placed before. The rounds stop only when nothing that is left can be placed,
and then each position that is left leads to a cycle. So what they leave is what is blocked.
-/

namespace StepGraph.Plan

variable {count : Nat} {dependencies : List (List Nat)} {order left : List Nat} {i : Nat}

/-- The position depends on itself, through others or not. -/
def OnCycle (dependencies : List (List Nat)) (i : Nat) : Prop :=
  Relation.TransGen (DependsOn dependencies) i i

/-- The position is on a cycle, or depends on a position that is, through others or not. -/
def Blocked (dependencies : List (List Nat)) (i : Nat) : Prop :=
  OnCycle dependencies i ∨
    ∃ c, Relation.TransGen (DependsOn dependencies) i c ∧ OnCycle dependencies c

theorem blocked_iff :
    Blocked dependencies i ↔
      ∃ c, Relation.ReflTransGen (DependsOn dependencies) i c ∧ OnCycle dependencies c := by
  constructor
  · rintro (hi | ⟨c, hic, hc⟩)
    · exact ⟨i, Relation.ReflTransGen.refl, hi⟩
    · exact ⟨c, hic.to_reflTransGen, hc⟩
  · rintro ⟨c, hic, hc⟩
    rcases Relation.reflTransGen_iff_eq_or_transGen.1 hic with rfl | hic
    · exact Or.inl hc
    · exact Or.inr ⟨c, hic, hc⟩

theorem mem_unplaced_iff : i ∈ unplaced count order ↔ i < count ∧ i ∉ order := by
  simp [unplaced]

theorem pairwise_unplaced (count : Nat) (order : List Nat) :
    (unplaced count order).Pairwise (· < ·) :=
  List.pairwise_lt_range.filter _

/-- What is placed is on no cycle, since it comes after itself otherwise. -/
theorem IsPartialSchedule.not_onCycle (h : IsPartialSchedule count dependencies order)
    (hi : i ∈ order) : ¬ OnCycle dependencies i := by
  intro hcycle
  obtain ⟨before, after, rfl⟩ := List.append_of_mem hi
  have hbefore : i ∈ before := h.respects.mem_of_transGen hcycle rfl
  exact (List.nodup_append.1 h.nodup).2.2 i hbefore i (by simp) rfl

theorem IsPartialSchedule.not_blocked (h : IsPartialSchedule count dependencies order)
    (hi : i ∈ order) : ¬ Blocked dependencies i := by
  rintro (hcycle | ⟨c, hic, hcycle⟩)
  · exact h.not_onCycle hi hcycle
  · obtain ⟨before, after, horder⟩ := List.append_of_mem hi
    have hbefore : c ∈ before := h.respects.mem_of_transGen hic horder
    have hc : c ∈ order := by simp [horder, hbefore]
    exact h.not_onCycle hc hcycle

/-- The rounds fail after placing some positions, at a round that finds none to go on with. -/
theorem IsPartialSchedule.exists_of_scheduleFrom_eq_error {rounds : Nat}
    (h : IsPartialSchedule count dependencies order)
    (hleft : Plan.scheduleFrom count dependencies rounds order = .error left) :
    ∃ placed, IsPartialSchedule count dependencies placed ∧
      nextReady? count dependencies placed = none ∧ left = unplaced count placed := by
  induction rounds generalizing order with
  | zero => cases hleft
  | succ rounds ih =>
      rw [Plan.scheduleFrom] at hleft
      split at hleft
      · next i hnext =>
        obtain ⟨hi, hready, -⟩ := nextReady?_eq_some hnext
        exact ih (h.place hi hready) hleft
      · next hnext =>
        cases hleft
        exact ⟨order, h, hnext, rfl⟩

/-- The positions that a schedule leaves are those that are blocked. -/
theorem mem_left_iff (hrange : ∀ i < count, ∀ d ∈ dependenciesOf dependencies i, d < count)
    (hleft : schedule count dependencies = .error left) :
    i ∈ left ↔ i < count ∧ Blocked dependencies i := by
  obtain ⟨placed, hplaced, hnext, rfl⟩ :=
    IsPartialSchedule.nil.exists_of_scheduleFrom_eq_error hleft
  rw [mem_unplaced_iff]
  constructor
  · rintro ⟨hi, hnot⟩
    obtain ⟨c, -, -, hic, hcc⟩ := exists_cycle_of_nextReady?_eq_none hrange hnext hi hnot
    exact ⟨hi, blocked_iff.2 ⟨c, hic, hcc⟩⟩
  · rintro ⟨hi, hblocked⟩
    exact ⟨hi, fun hmem => hplaced.not_blocked hmem hblocked⟩

theorem pairwise_left (hleft : schedule count dependencies = .error left) :
    left.Pairwise (· < ·) := by
  obtain ⟨placed, -, -, rfl⟩ := IsPartialSchedule.nil.exists_of_scheduleFrom_eq_error hleft
  exact pairwise_unplaced count placed

theorem schedule_isError_iff
    (hrange : ∀ i < count, ∀ d ∈ dependenciesOf dependencies i, d < count) :
    (∃ left, schedule count dependencies = .error left) ↔
      ∃ i < count, OnCycle dependencies i := by
  have hok : (∃ order, schedule count dependencies = .ok order) ↔
      ∀ i < count, ¬ OnCycle dependencies i := schedule_isOk_iff hrange
  cases hschedule : schedule count dependencies with
  | ok order =>
      refine iff_of_false (by simp) ?_
      rintro ⟨i, hi, hcycle⟩
      exact hok.1 ⟨order, hschedule⟩ i hi hcycle
  | error left =>
      refine iff_of_true ⟨left, rfl⟩ ?_
      by_contra hnone
      push Not at hnone
      obtain ⟨order, horder⟩ := hok.2 hnone
      rw [hschedule] at horder
      cases horder

theorem scheduleNodes_eq_error_iff {nodes : List Node} {e : CompileError} :
    scheduleNodes nodes dependencies = .error e ↔
      ∃ left, schedule nodes.length dependencies = .error left ∧
        e = .dependencyCycle ((pick nodes left).map Node.id) := by
  have hpick : ∀ left, (pick nodes left).map Node.id =
      left.filterMap fun i => nodes[i]?.map Node.id := by
    intro left
    rw [pick, List.map_filterMap]
  rw [scheduleNodes]
  cases schedule nodes.length dependencies with
  | ok order => simp
  | error left => simp [hpick, eq_comm]

/-- Nodes cannot be ordered exactly if some of them wait for each other in a cycle. Then the error
names, in list order and each once, the nodes that are on a cycle or depend on a node on a cycle;
none of those whose dependencies lead to no cycle. -/
theorem scheduleNodes_error_names_blocked (nodes : List Node) (dependencies : List (List Nat))
    (hrange : ∀ i < nodes.length, ∀ d ∈ dependenciesOf dependencies i, d < nodes.length) :
    ((∃ e, scheduleNodes nodes dependencies = .error e) ↔
      ∃ i < nodes.length, OnCycle dependencies i) ∧
    ∀ e, scheduleNodes nodes dependencies = .error e →
      ∃ left, e = .dependencyCycle ((pick nodes left).map Node.id) ∧ left.Pairwise (· < ·) ∧
        (∀ i, i ∈ left ↔ i < nodes.length ∧ Blocked dependencies i) ∧
        ∀ i, (∀ c, Relation.ReflTransGen (DependsOn dependencies) i c →
          ¬ OnCycle dependencies c) → i ∉ left := by
  constructor
  · rw [← schedule_isError_iff hrange]
    constructor
    · rintro ⟨e, he⟩
      obtain ⟨left, hleft, -⟩ := scheduleNodes_eq_error_iff.1 he
      exact ⟨left, hleft⟩
    · rintro ⟨left, hleft⟩
      exact ⟨_, scheduleNodes_eq_error_iff.2 ⟨left, hleft, rfl⟩⟩
  · intro e he
    obtain ⟨left, hleft, rfl⟩ := scheduleNodes_eq_error_iff.1 he
    refine ⟨left, rfl, pairwise_left hleft, fun i => mem_left_iff hrange hleft, ?_⟩
    intro i hacyclic hi
    obtain ⟨c, hic, hc⟩ := blocked_iff.1 ((mem_left_iff hrange hleft).1 hi).2
    exact hacyclic c hic hc

/-- A node that waits for a loop of two, the loop, a node that waits for none, and one that waits
for that. -/
def loopNodes : List Node :=
  ["waiting", "first", "second", "free", "last"].map fun name =>
    ⟨⟨name⟩, "relay", relayStep, .empty, [], [], [], 0⟩

def loopDependencies : List (List Nat) := [[1, 3], [2], [1], [], [3]]

theorem loop_error_names_blocked :
    (∀ i < loopNodes.length, ∀ d ∈ dependenciesOf loopDependencies i, d < loopNodes.length) ∧
      scheduleNodes loopNodes loopDependencies =
        .error (.dependencyCycle [⟨"waiting"⟩, ⟨"first"⟩, ⟨"second"⟩]) ∧
      (∃ i < loopNodes.length, OnCycle loopDependencies i) ∧
      ∃ left, CompileError.dependencyCycle [⟨"waiting"⟩, ⟨"first"⟩, ⟨"second"⟩] =
          .dependencyCycle ((pick loopNodes left).map Node.id) ∧
        ∀ i, i ∈ left ↔ i < loopNodes.length ∧ Blocked loopDependencies i := by
  have hrange : ∀ i < loopNodes.length, ∀ d ∈ dependenciesOf loopDependencies i,
      d < loopNodes.length := by decide
  have herror : scheduleNodes loopNodes loopDependencies =
      .error (.dependencyCycle [⟨"waiting"⟩, ⟨"first"⟩, ⟨"second"⟩]) := rfl
  obtain ⟨hfails, hnames⟩ := scheduleNodes_error_names_blocked loopNodes loopDependencies hrange
  obtain ⟨left, hleft, -, hmem, -⟩ := hnames _ herror
  exact ⟨hrange, herror, hfails.1 ⟨_, herror⟩, left, hleft, hmem⟩

end StepGraph.Plan
