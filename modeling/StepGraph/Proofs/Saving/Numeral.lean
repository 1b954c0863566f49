import StepGraph.Graph.NodeId

/-!
# Usual numerals

The usual numeral of a whole number has no sign but a minus, and no zeros in front. It is what
`toString` gives, and reading it gives the number back. A text is the usual numeral of at most one
64-bit number, `numeral64?`, and such a text is the id that is saved as a number.
-/

namespace StepGraph

namespace Decimal

/-! ## Numbers that fit a word -/

theorem fitInt64?_toInt (n : Int64) : fitInt64? n.toInt = some n := by
  rw [fitInt64?, if_pos ⟨Int64.minValue_le_toInt n, Int64.toInt_le n⟩, Int64.ofInt_toInt]

theorem fitUInt64?_toNat (n : UInt64) : fitUInt64? n.toNat = some n := by
  rw [fitUInt64?, if_pos ⟨Int.natCast_nonneg _, n.toNat_lt⟩, Int.toNat_natCast, UInt64.ofNat_toNat]

/-- The numbers that fit a signed word are those of the 64-bit numbers. -/
theorem fitInt64?_eq_some_iff {n : Int} {i : Int64} : fitInt64? n = some i ↔ n = i.toInt := by
  constructor
  · intro h
    rw [fitInt64?] at h
    split at h
    · next hrange =>
      cases h
      rw [Int64.toInt_ofInt_of_le hrange.1 (Int.lt_of_le_of_lt hrange.2 (by decide))]
    · cases h
  · rintro rfl
    exact fitInt64?_toInt i

theorem fitUInt64?_eq_some_iff {n : Int} {i : UInt64} : fitUInt64? n = some i ↔ n = i.toNat := by
  constructor
  · intro h
    rw [fitUInt64?] at h
    split at h
    · next hrange =>
      cases h
      rw [UInt64.toNat_ofNat_of_lt' hrange.2, Int.toNat_of_nonneg hrange.1]
    · cases h
  · rintro rfl
    exact fitUInt64?_toNat i

/-! ## Reading usual numerals -/

theorem digitValue?_of_isDigit {c : Char} (h : c.isDigit = true) :
    digitValue? 10 c = some (c.toNat - '0'.toNat) := by
  have hrange : 48 ≤ c.toNat ∧ c.toNat ≤ 57 := by
    simpa [Char.isDigit, UInt32.le_iff_toNat_le] using h
  have hlt : c.toNat - 48 < 10 := by omega
  simp [digitValue?, hrange, hlt]

theorem readDigits?_of_isDigit {cs : List Char} (h : ∀ c ∈ cs, c.isDigit = true) (n : Nat) :
    readDigits? 10 n cs = some (Nat.ofDigitChars 10 cs n) := by
  induction cs generalizing n with
  | nil => rfl
  | cons c cs ih =>
      obtain ⟨hc, hcs⟩ := List.forall_mem_cons.1 h
      rw [readDigits?, digitValue?_of_isDigit hc, Option.bind_some, ih hcs, Nat.ofDigitChars_cons,
        Nat.mul_comm]

theorem natural?_toDigits (n : Nat) : natural? 10 (Nat.toDigits 10 n) = some n := by
  have hdigits : ∀ c ∈ Nat.toDigits 10 n, c.isDigit = true :=
    fun c hc => Nat.isDigit_of_mem_toDigits (by decide) (by decide) hc
  cases hcs : Nat.toDigits 10 n with
  | nil => exact absurd hcs Nat.toDigits_ne_nil
  | cons c cs =>
      rw [natural?, ← hcs, readDigits?_of_isDigit hdigits, Nat.ofDigitChars_ten_toDigits]

theorem integer?_toString (n : Int) : integer? 10 (toString n).toList = some n := by
  cases n with
  | ofNat m =>
      have htext : (toString (Int.ofNat m)).toList = Nat.toDigits 10 m := Nat.toList_repr
      have hread := natural?_toDigits m
      rw [htext]
      -- a numeral starts with a digit, so with no sign
      cases hcs : Nat.toDigits 10 m with
      | nil => exact absurd hcs Nat.toDigits_ne_nil
      | cons c cs =>
          have hdigit : c.isDigit = true :=
            Nat.isDigit_of_mem_toDigits (b := 10) (n := m) (by decide) (by decide) (by simp [hcs])
          rw [hcs] at hread
          unfold integer?
          split
          · next heq =>
            cases heq
            cases hdigit
          · next heq =>
            cases heq
            cases hdigit
          · rw [hread]
            rfl
  | negSucc m =>
      have htext : (toString (Int.negSucc m)).toList = '-' :: Nat.toDigits 10 (m + 1) := by
        have happend : toString (Int.negSucc m) = "-" ++ Nat.repr (m + 1) := rfl
        rw [happend, String.toList_append, Nat.toList_repr]
        rfl
      rw [htext, integer?, natural?_toDigits]
      rfl

theorem int64?_toString (n : Int64) : int64? (toString n.toInt).toList = some n := by
  rw [int64?, integer?_toString, Option.bind_some, fitInt64?_toInt]

/-- The 64-bit number that the text is the usual numeral of. -/
def numeral64? (text : String) : Option Int64 :=
  (int64? text.toList).filter fun n => text = toString n.toInt

theorem numeral64?_eq_some_iff {text : String} {n : Int64} :
    numeral64? text = some n ↔ text = toString n.toInt := by
  rw [numeral64?, Option.filter_eq_some_iff, decide_eq_true_iff]
  constructor
  · exact And.right
  · rintro rfl
    exact ⟨int64?_toString n, rfl⟩

example : numeral64? "-7" = some (-7) ∧ numeral64? "007" = none ∧ numeral64? "+7" = none := by
  decide +kernel

end Decimal

/-- An id is saved as the number whose usual numeral it is, or else as its text. -/
theorem NodeId.json_eq (id : NodeId) :
    id.json = match Decimal.numeral64? id.text with
      | some n => Json.ofInt n.toInt
      | none => .string id.text := by
  rw [json, int64?, Decimal.numeral64?]
  cases Decimal.int64? id.text.toList with
  | none => rfl
  | some n =>
      rw [Option.filter_some]
      by_cases htext : id.text = toString n.toInt
      · simp only [htext, decide_true, if_true]
      · simp only [htext, Ne.symm htext, decide_false, if_false, Bool.false_eq_true]

end StepGraph
