import Mathlib.Tactic.SplitIfs
import StepGraph.Decimal.Basic

/-!
# Which texts are read as numbers

The readers of numerals, fractions and floats as grammars: a text is read exactly if it can be taken
apart as the grammar says. The readers take the longest run of digits where a grammar leaves the
choice open; what may follow a run of digits starts with no digit, so nothing is lost by that.
-/

namespace StepGraph.Decimal

/-! ## Numerals -/

def binaryDigits : List Char := ['0', '1']

def octalDigits : List Char := binaryDigits ++ ['2', '3', '4', '5', '6', '7']

def decimalDigits : List Char := octalDigits ++ ['8', '9']

def hexadecimalDigits : List Char :=
  decimalDigits ++ ['a', 'b', 'c', 'd', 'e', 'f', 'A', 'B', 'C', 'D', 'E', 'F']

/-- The radixes in which texts are read, with their digits. -/
def radixDigits : List (Nat × List Char) :=
  [(2, binaryDigits), (8, octalDigits), (10, decimalDigits), (16, hexadecimalDigits)]

/-- One or more of the digits and nothing else. -/
structure IsNumeral (digits cs : List Char) : Prop where
  ne_nil : cs ≠ []
  mem : ∀ c ∈ cs, c ∈ digits

/-- One sign or none. -/
def IsSign (cs : List Char) : Prop := cs = [] ∨ cs = ['+'] ∨ cs = ['-']

theorem isDigit_iff_mem {c : Char} : isDigit c = true ↔ c ∈ decimalDigits := by
  simp [isDigit, decimalDigits, octalDigits, binaryDigits, ← Char.toNat_inj]
  omega

theorem isSome_digitValue?_iff {radix : Nat} {c : Char} :
    (digitValue? radix c).isSome ↔
      48 ≤ c.toNat ∧ c.toNat ≤ 57 ∧ c.toNat < radix + 48 ∨
      97 ≤ c.toNat ∧ c.toNat ≤ 122 ∧ c.toNat < radix + 87 ∨
      65 ≤ c.toNat ∧ c.toNat ≤ 90 ∧ c.toNat < radix + 55 := by
  simp only [digitValue?]
  split_ifs <;> simp <;> omega

theorem isSome_digitValue?_iff_mem {radix : Nat} {digits : List Char}
    (h : (radix, digits) ∈ radixDigits) {c : Char} :
    (digitValue? radix c).isSome ↔ c ∈ digits := by
  simp only [radixDigits, List.mem_cons, List.not_mem_nil, or_false, Prod.mk.injEq] at h
  rw [isSome_digitValue?_iff]
  rcases h with ⟨rfl, rfl⟩ | ⟨rfl, rfl⟩ | ⟨rfl, rfl⟩ | ⟨rfl, rfl⟩ <;>
    simp [hexadecimalDigits, decimalDigits, octalDigits, binaryDigits, ← Char.toNat_inj] <;> omega

theorem isSome_readDigits?_iff {radix n : Nat} {cs : List Char} :
    (readDigits? radix n cs).isSome ↔ ∀ c ∈ cs, (digitValue? radix c).isSome := by
  induction cs generalizing n with
  | nil => simp [readDigits?]
  | cons c cs ih =>
      rw [readDigits?, List.forall_mem_cons]
      cases digitValue? radix c with
      | none => simp
      | some d => simpa using ih

/-- A numeral is read if it is made of the digits of the radix. -/
theorem isSome_natural?_iff {radix : Nat} {digits cs : List Char}
    (h : (radix, digits) ∈ radixDigits) :
    (natural? radix cs).isSome ↔ IsNumeral digits cs := by
  cases cs with
  | nil => exact iff_of_false (by simp [natural?]) fun hcs => hcs.ne_nil rfl
  | cons c cs =>
      rw [natural?, isSome_readDigits?_iff]
      simp only [isSome_digitValue?_iff_mem h]
      exact ⟨fun hmem => ⟨List.cons_ne_nil c cs, hmem⟩, IsNumeral.mem⟩

/-- The text without the sign in front, if there is one. -/
def withoutSign : List Char → List Char
  | '+' :: cs => cs
  | '-' :: cs => cs
  | cs => cs

theorem withoutSign_eq_self {cs : List Char} (hplus : ∀ rest, cs ≠ '+' :: rest)
    (hminus : ∀ rest, cs ≠ '-' :: rest) : withoutSign cs = cs := by
  unfold withoutSign
  split
  · exact absurd rfl (hplus _)
  · exact absurd rfl (hminus _)
  · rfl

/-- The text is not empty and starts with no sign. -/
def NoSignFirst (cs : List Char) : Prop := ∃ c rest, cs = c :: rest ∧ c ≠ '+' ∧ c ≠ '-'

/-- Texts that start with no sign are found behind a sign or none by leaving the sign out. -/
theorem exists_sign_iff {p : List Char → Prop} (hp : ∀ cs, p cs → NoSignFirst cs)
    {cs : List Char} : (∃ sign rest, IsSign sign ∧ p rest ∧ cs = sign ++ rest) ↔
      p (withoutSign cs) := by
  constructor
  · rintro ⟨sign, rest, rfl | rfl | rfl, hrest, rfl⟩
    · obtain ⟨c, rest, rfl, hplus, hminus⟩ := hp _ hrest
      have hsame : withoutSign (c :: rest) = c :: rest :=
        withoutSign_eq_self (fun _ heq => hplus (List.cons.inj heq).1)
          fun _ heq => hminus (List.cons.inj heq).1
      rw [hsame]
      exact hrest
    · exact hrest
    · exact hrest
  · intro h
    unfold withoutSign at h
    split at h
    · exact ⟨['+'], _, .inr (.inl rfl), h, rfl⟩
    · exact ⟨['-'], _, .inr (.inr rfl), h, rfl⟩
    · exact ⟨[], _, .inl rfl, h, rfl⟩

theorem IsNumeral.noSignFirst {cs : List Char} (h : IsNumeral decimalDigits cs) :
    NoSignFirst cs := by
  obtain ⟨c, rest, rfl⟩ := List.exists_cons_of_ne_nil h.ne_nil
  have hc := h.mem c (List.mem_cons_self ..)
  refine ⟨c, rest, rfl, ?_, ?_⟩
  · rintro rfl
    simp [decimalDigits, octalDigits, binaryDigits] at hc
  · rintro rfl
    simp [decimalDigits, octalDigits, binaryDigits] at hc

theorem isSome_integer?_iff {cs : List Char} :
    (integer? 10 cs).isSome ↔
      ∃ sign digits, IsSign sign ∧ IsNumeral decimalDigits digits ∧ cs = sign ++ digits := by
  have hten : (10, decimalDigits) ∈ radixDigits := by simp [radixDigits]
  rw [exists_sign_iff fun _ => IsNumeral.noSignFirst, ← isSome_natural?_iff hten]
  unfold integer?
  split
  · rw [Option.isSome_map]
    rfl
  · rw [Option.isSome_map]
    rfl
  · next hplus hminus => rw [Option.isSome_map, withoutSign_eq_self hplus hminus]

/-! ## Fractions -/

/-- Digits with a point or without, at least one digit. -/
inductive IsMantissa : List Char → Prop
  | whole {digits : List Char} (h : IsNumeral decimalDigits digits) : IsMantissa digits
  | point {digits part : List Char} (h : IsNumeral decimalDigits digits)
    (hpart : ∀ c ∈ part, c ∈ decimalDigits) : IsMantissa (digits ++ '.' :: part)
  | part {part : List Char} (h : IsNumeral decimalDigits part) : IsMantissa ('.' :: part)

/-- Nothing, or an `e` with a sign or none and at least one digit. -/
inductive IsExponent : List Char → Prop
  | none : IsExponent []
  | power {e : Char} {sign digits : List Char} (he : e = 'e' ∨ e = 'E') (hsign : IsSign sign)
    (h : IsNumeral decimalDigits digits) : IsExponent (e :: (sign ++ digits))

/-- A decimal fraction: a sign or none, a mantissa, and an exponent or none. -/
def IsFraction (cs : List Char) : Prop :=
  ∃ sign mantissa exponent, IsSign sign ∧ IsMantissa mantissa ∧ IsExponent exponent ∧
    cs = sign ++ mantissa ++ exponent

theorem isSome_readExponent?_iff {cs : List Char} :
    (readExponent? cs).isSome ↔ IsExponent cs := by
  cases cs with
  | nil => exact iff_of_true rfl .none
  | cons c cs =>
      rw [readExponent?]
      split
      · next hc =>
        rw [isSome_integer?_iff]
        constructor
        · rintro ⟨sign, digits, hsign, hdigits, rfl⟩
          exact .power hc hsign hdigits
        · intro h
          cases h with
          | power _ hsign hdigits => exact ⟨_, _, hsign, hdigits, rfl⟩
      · next hc =>
        refine iff_of_false (by simp) fun h => ?_
        cases h with
        | power he _ _ => exact hc he

/-- What may follow a run of digits: a text that starts with none. -/
def NoDigitFirst (cs : List Char) : Prop := ∀ c ∈ cs.head?, c ∉ decimalDigits

theorem IsExponent.noDigitFirst {cs : List Char} (h : IsExponent cs) : NoDigitFirst cs := by
  cases h with
  | none => simp [NoDigitFirst]
  | power he _ _ =>
      rcases he with rfl | rfl
      · simp [NoDigitFirst, decimalDigits, octalDigits, binaryDigits]
      · simp [NoDigitFirst, decimalDigits, octalDigits, binaryDigits]

theorem noDigitFirst_point (cs : List Char) : NoDigitFirst ('.' :: cs) := by
  simp [NoDigitFirst, decimalDigits, octalDigits, binaryDigits]

theorem spanDigits_append {digits rest : List Char} (h : ∀ c ∈ digits, c ∈ decimalDigits)
    (hrest : NoDigitFirst rest) : spanDigits (digits ++ rest) = (digits, rest) := by
  have hdigits : ∀ c ∈ digits, isDigit c = true := fun c hc => isDigit_iff_mem.2 (h c hc)
  rw [spanDigits, List.takeWhile_append_of_pos hdigits, List.dropWhile_append_of_pos hdigits]
  cases rest with
  | nil => simp
  | cons c rest =>
      have hc : ¬ isDigit c = true := fun hc => hrest c rfl (isDigit_iff_mem.1 hc)
      simp [hc]

theorem exists_spanDigits (cs : List Char) :
    ∃ digits rest, spanDigits cs = (digits, rest) ∧ digits ++ rest = cs ∧
      ∀ c ∈ digits, c ∈ decimalDigits := by
  refine ⟨_, _, rfl, List.takeWhile_append_dropWhile, fun c hc => isDigit_iff_mem.1 ?_⟩
  exact List.all_eq_true.1 List.all_takeWhile c hc

/-- What is read of a mantissa with a point. -/
theorem isSome_readUnsigned?_of_point {negative : Bool} {cs whole part rest rest' : List Char}
    (hwhole : spanDigits cs = (whole, '.' :: rest)) (hpart : spanDigits rest = (part, rest')) :
    (readUnsigned? negative cs).isSome ↔ (whole ≠ [] ∨ part ≠ []) ∧ IsExponent rest' := by
  rw [← isSome_readExponent?_iff]
  simp only [readUnsigned?, hwhole, hpart]
  cases whole <;> cases part <;> simp

/-- What is read of a mantissa without a point. -/
theorem isSome_readUnsigned?_of_no_point {negative : Bool} {cs whole rest : List Char}
    (hwhole : spanDigits cs = (whole, rest)) (hpoint : ∀ rest', rest ≠ '.' :: rest') :
    (readUnsigned? negative cs).isSome ↔ whole ≠ [] ∧ IsExponent rest := by
  rw [← isSome_readExponent?_iff]
  cases rest with
  | nil => cases whole <;> simp [readUnsigned?, hwhole]
  | cons c rest =>
      cases whole with
      | nil => simp [readUnsigned?, hwhole]
      | cons d whole => simp [readUnsigned?, hwhole]

theorem IsExponent.ne_point {cs : List Char} (h : IsExponent cs) (rest : List Char) :
    cs ≠ '.' :: rest := by
  rintro rfl
  cases h with
  | power he _ _ => rcases he with he | he <;> cases he

/-- An unsigned fraction is a mantissa with an exponent or none. -/
theorem isSome_readUnsigned?_iff {negative : Bool} {cs : List Char} :
    (readUnsigned? negative cs).isSome ↔
      ∃ mantissa exponent, IsMantissa mantissa ∧ IsExponent exponent ∧ cs = mantissa ++ exponent := by
  constructor
  · intro h
    obtain ⟨whole, rest, hspan, rfl, hwhole⟩ := exists_spanDigits cs
    by_cases hpoint : ∃ rest', rest = '.' :: rest'
    · obtain ⟨rest', rfl⟩ := hpoint
      obtain ⟨part, exponent, hspan', rfl, hpart⟩ := exists_spanDigits rest'
      obtain ⟨hsome, hexponent⟩ := (isSome_readUnsigned?_of_point hspan hspan').1 h
      refine ⟨whole ++ '.' :: part, exponent, ?_, hexponent, by simp⟩
      by_cases hempty : whole = []
      · rw [hempty]
        exact .part ⟨hsome.resolve_left (· hempty), hpart⟩
      · exact .point ⟨hempty, hwhole⟩ hpart
    · obtain ⟨hsome, hexponent⟩ := (isSome_readUnsigned?_of_no_point hspan
        fun rest' hrest => hpoint ⟨rest', hrest⟩).1 h
      exact ⟨whole, rest, .whole ⟨hsome, hwhole⟩, hexponent, rfl⟩
  · rintro ⟨mantissa, exponent, hmantissa, hexponent, rfl⟩
    have hafter := hexponent.noDigitFirst
    cases hmantissa with
    | whole h =>
        have hspan := spanDigits_append h.mem hafter
        exact (isSome_readUnsigned?_of_no_point hspan hexponent.ne_point).2 ⟨h.ne_nil, hexponent⟩
    | @point digits part h hpart =>
        have hspan : spanDigits (digits ++ '.' :: part ++ exponent) =
            (digits, '.' :: (part ++ exponent)) := by
          rw [List.append_assoc, List.cons_append]
          exact spanDigits_append h.mem (noDigitFirst_point _)
        exact (isSome_readUnsigned?_of_point hspan (spanDigits_append hpart hafter)).2
          ⟨.inl h.ne_nil, hexponent⟩
    | @part part h =>
        have hspan : spanDigits ('.' :: part ++ exponent) = ([], '.' :: (part ++ exponent)) :=
          @spanDigits_append [] _ (List.forall_mem_nil _) (noDigitFirst_point _)
        exact (isSome_readUnsigned?_of_point hspan (spanDigits_append h.mem hafter)).2
          ⟨.inr h.ne_nil, hexponent⟩

theorem IsMantissa.noSignFirst {cs : List Char} (h : IsMantissa cs) : NoSignFirst cs := by
  cases h with
  | whole h => exact h.noSignFirst
  | @point digits part h _ =>
      obtain ⟨c, rest, rfl, hc⟩ := h.noSignFirst
      exact ⟨c, rest ++ '.' :: part, rfl, hc⟩
  | @part part h => exact ⟨'.', part, rfl, by decide⟩

theorem isSome_read?_iff {cs : List Char} : (read? cs).isSome ↔ IsFraction cs := by
  have hfirst : ∀ cs, (∃ mantissa exponent, IsMantissa mantissa ∧ IsExponent exponent ∧
      cs = mantissa ++ exponent) → NoSignFirst cs := by
    rintro _ ⟨mantissa, exponent, hmantissa, -, rfl⟩
    obtain ⟨c, rest, rfl, hc⟩ := hmantissa.noSignFirst
    exact ⟨c, rest ++ exponent, rfl, hc⟩
  have hread : (read? cs).isSome ↔ ∃ mantissa exponent, IsMantissa mantissa ∧
      IsExponent exponent ∧ withoutSign cs = mantissa ++ exponent := by
    unfold read?
    split
    · exact isSome_readUnsigned?_iff
    · exact isSome_readUnsigned?_iff
    · next hplus hminus =>
      rw [withoutSign_eq_self hplus hminus]
      exact isSome_readUnsigned?_iff
  rw [hread, ← exists_sign_iff hfirst]
  constructor
  · rintro ⟨sign, _, hsign, ⟨mantissa, exponent, hmantissa, hexponent, rfl⟩, rfl⟩
    exact ⟨sign, mantissa, exponent, hsign, hmantissa, hexponent, (List.append_assoc ..).symm⟩
  · rintro ⟨sign, mantissa, exponent, hsign, hmantissa, hexponent, rfl⟩
    exact ⟨sign, _, hsign, ⟨mantissa, exponent, hmantissa, hexponent, rfl⟩, List.append_assoc ..⟩

/-! ## Floats -/

/-- A word for a float that is no number or not finite, in letters of either case. -/
def IsFloatWord (cs : List Char) : Prop :=
  isWord "inf" cs = true ∨ isWord "infinity" cs = true ∨ isWord "nan" cs = true

theorem IsFloatWord.noSignFirst {cs : List Char} (h : IsFloatWord cs) : NoSignFirst cs := by
  cases cs with
  | nil => simp [IsFloatWord, isWord] at h
  | cons c cs =>
      refine ⟨c, cs, rfl, ?_, ?_⟩
      · rintro rfl
        simp [IsFloatWord, isWord] at h
      · rintro rfl
        simp [IsFloatWord, isWord] at h

theorem isSome_word_iff {cs : List Char} (infinite nan : Float) :
    (if isWord "inf" cs || isWord "infinity" cs then some infinite
      else if isWord "nan" cs then some nan else none).isSome ↔ IsFloatWord cs := by
  rw [IsFloatWord]
  split_ifs with hinf hnan
  · rw [Bool.or_eq_true] at hinf
    exact iff_of_true rfl (hinf.imp_right .inl)
  · exact iff_of_true rfl (.inr (.inr hnan))
  · rw [Bool.or_eq_true, not_or] at hinf
    simp [hinf, hnan]

/-- A float is a fraction, or one of the words behind a sign or none. -/
theorem isSome_readFloat?_iff {cs : List Char} :
    (readFloat? cs).isSome ↔
      IsFraction cs ∨ ∃ sign word, IsSign sign ∧ IsFloatWord word ∧ cs = sign ++ word := by
  rw [← isSome_read?_iff, exists_sign_iff fun _ => IsFloatWord.noSignFirst]
  cases hread : read? cs with
  | some d => simp [readFloat?, hread]
  | none =>
      have hnone : ¬ (none : Option Decimal).isSome := by simp
      rw [or_iff_right hnone]
      simp only [readFloat?, hread]
      split
      · exact isSome_word_iff _ _
      · rw [Option.isSome_map]
        exact isSome_word_iff _ _
      · next hplus hminus =>
        rw [withoutSign_eq_self hplus hminus]
        exact isSome_word_iff _ _

end StepGraph.Decimal
