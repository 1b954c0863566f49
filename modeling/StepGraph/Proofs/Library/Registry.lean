import StepGraph.Proofs.Sorting
import StepGraph.Step.Registry

/-!
# Registries that give the same answers

The order in which steps are registered under different names shows in no answer of a registry: what
is found under a name, the name to show for it, and the sorted list of names depend only on what was
registered last under each name. Two registries *agree* if every name has the same step and the same
shown name in both, and then all their answers are the same.
-/

namespace StepGraph

namespace OrderedMap

variable {α : Type} {m m' : OrderedMap String α}

/-- Maps in which every key has the same value have the same keys, in some order. -/
theorem perm_keys_of_find?_eq (h : ∀ k, m.find? k = m'.find? k) : m.keys.Perm m'.keys := by
  refine (List.perm_ext_iff_of_nodup m.nodup_keys m'.nodup_keys).2 fun k => ?_
  refine mem_keys_iff.trans (Iff.trans ?_ mem_keys_iff.symm)
  rw [h]

end OrderedMap

namespace Registry

variable {r r' : Registry}

/-- Every name has the same step and the same shown name in both registries. -/
structure Agrees (r r' : Registry) : Prop where
  steps : ∀ name, r.steps.find? name = r'.steps.find? name
  displayNames : ∀ name, r.displayNames.find? name = r'.displayNames.find? name

/-- All that can be asked of the registries has the same answer. -/
structure SameAnswers (r r' : Registry) : Prop where
  lookup : r.lookup = r'.lookup
  contains : r.contains = r'.contains
  displayName? : r.displayName? = r'.displayName?
  names : r.names = r'.names
  size : r.size = r'.size

theorem Agrees.refl (r : Registry) : r.Agrees r := ⟨fun _ => rfl, fun _ => rfl⟩

theorem Agrees.lookup_eq (h : r.Agrees r') : r.lookup = r'.lookup := funext h.steps

theorem Agrees.sameAnswers (h : r.Agrees r') : r.SameAnswers r' := by
  have hcontains : r.contains = r'.contains := by
    funext name
    rw [contains, contains, OrderedMap.contains, OrderedMap.contains, h.steps]
  have hkeys := OrderedMap.perm_keys_of_find?_eq h.steps
  refine ⟨h.lookup_eq, hcontains, ?_, Text.sort_eq_of_perm hkeys, ?_⟩
  · funext name
    rw [displayName?, displayName?, h.displayNames, hcontains]
  · rw [size, size, OrderedMap.size, OrderedMap.size]
    simpa [OrderedMap.keys, Entries.keys] using hkeys.length_eq

theorem Agrees.registerAs (h : r.Agrees r') (name displayName : String) (step : Step) :
    (r.registerAs name displayName step).Agrees (r'.registerAs name displayName step) := by
  constructor
  · intro x
    rw [Registry.registerAs, Registry.registerAs, OrderedMap.find?_insert, OrderedMap.find?_insert,
      h.steps]
  · intro x
    rw [Registry.registerAs, Registry.registerAs, OrderedMap.find?_insert, OrderedMap.find?_insert,
      h.displayNames]

/-- Registering under two different names can be done in either order. -/
theorem Agrees.registerAs_comm (h : r.Agrees r') {name name' : String} (hne : name ≠ name')
    (displayName displayName' : String) (step step' : Step) :
    ((r.registerAs name displayName step).registerAs name' displayName' step').Agrees
      ((r'.registerAs name' displayName' step').registerAs name displayName step) := by
  have hinsert : ∀ {α : Type} {m m' : OrderedMap String α}, (∀ x, m.find? x = m'.find? x) →
      ∀ (a b : α) x, ((m.insert name a).insert name' b).find? x =
        ((m'.insert name' b).insert name a).find? x := by
    intro α m m' hm a b x
    simp only [OrderedMap.find?_insert, hm]
    by_cases hx : name' = x
    · rw [if_pos hx, if_neg (hx ▸ hne)]
      exact (if_pos hx).symm
    · rw [if_neg hx, if_neg hx]
  exact ⟨hinsert h.steps _ _, hinsert h.displayNames _ _⟩

end Registry

end StepGraph
