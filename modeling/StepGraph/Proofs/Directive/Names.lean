import StepGraph.Directive.Name
import StepGraph.Proofs.Decimal.Grammar

/-!
# Which names are refused

A name is refused if nothing but white space is in it, or if what is left without the white space at
its ends is a numeric literal: `Infinity`, a whole number behind `0x`, `0o` or `0b`, or a decimal
fraction. The grammar of these literals is `IsNumericLiteral`. What is tried for a decimal is a
reader of floats, which knows more words; the characters of a decimal are checked before, and none
of the words is made of them.
-/

namespace StepGraph

namespace Text

/-- The text `t` is `cs` without the white space at its ends. -/
structure TrimsTo (cs t : List Char) : Prop where
  parts : ∃ before after, cs = before ++ t ++ after ∧ (∀ c ∈ before, isBlank c = true) ∧
    ∀ c ∈ after, isBlank c = true
  first : ∀ c ∈ t.head?, isBlank c = false
  last : ∀ c ∈ t.getLast?, isBlank c = false

theorem head?_dropWhile_isBlank (cs : List Char) :
    ∀ c ∈ (cs.dropWhile isBlank).head?, isBlank c = false := by
  intro c hc
  have h := List.head?_dropWhile_not isBlank cs
  rw [hc] at h
  exact h

theorem trimEnd_append (cs : List Char) :
    trimEnd cs ++ (cs.reverse.takeWhile isBlank).reverse = cs := by
  rw [trimEnd, ← List.reverse_append, List.takeWhile_append_dropWhile, List.reverse_reverse]

theorem trimsTo_trim (cs : List Char) : TrimsTo cs (trim cs) := by
  have hblank : ∀ cs : List Char, ∀ c ∈ cs.takeWhile isBlank, isBlank c = true :=
    fun cs => List.all_eq_true.1 List.all_takeWhile
  refine ⟨⟨cs.takeWhile isBlank, ((cs.dropWhile isBlank).reverse.takeWhile isBlank).reverse,
    ?_, hblank cs, ?_⟩, ?_, ?_⟩
  · rw [trim, List.append_assoc, trimEnd_append, List.takeWhile_append_dropWhile]
  · intro c hc
    exact hblank _ c (List.mem_reverse.1 hc)
  · -- what is left starts like the text without the white space in front
    intro c hc
    refine head?_dropWhile_isBlank cs c ?_
    rw [← trimEnd_append (cs.dropWhile isBlank), List.head?_append, ← trim, hc]
    rfl
  · intro c hc
    rw [trim, trimEnd, List.getLast?_reverse] at hc
    exact head?_dropWhile_isBlank _ c hc

end Text

namespace Directive

open Decimal

/-! ## Numeric literals -/

/-- The digits that a letter after a zero announces. -/
inductive Announces : Char → List Char → Prop
  | hexadecimal {c : Char} (h : c = 'x' ∨ c = 'X') : Announces c hexadecimalDigits
  | octal {c : Char} (h : c = 'o' ∨ c = 'O') : Announces c octalDigits
  | binary {c : Char} (h : c = 'b' ∨ c = 'B') : Announces c binaryDigits

/-- The texts that an editor takes for numbers. -/
inductive IsNumericLiteral : List Char → Prop
  | infinity {sign : List Char} (h : IsSign sign) : IsNumericLiteral (sign ++ "Infinity".toList)
  | radix {letter : Char} {digits cs : List Char} (hletter : Announces letter digits)
    (h : IsNumeral digits cs) : IsNumericLiteral ('0' :: letter :: cs)
  | decimal {cs : List Char} (h : IsFraction cs) : IsNumericLiteral cs

theorem isInfinity_iff {cs : List Char} :
    isInfinity cs = true ↔ ∃ sign, IsSign sign ∧ cs = sign ++ "Infinity".toList := by
  have hplus : "+Infinity".toList = ['+'] ++ "Infinity".toList := rfl
  have hminus : "-Infinity".toList = ['-'] ++ "Infinity".toList := rfl
  simp only [isInfinity, IsSign, Bool.or_eq_true, beq_iff_eq, hplus, hminus]
  constructor
  · rintro ((h | h) | h)
    · exact ⟨[], .inl rfl, h⟩
    · exact ⟨['+'], .inr (.inl rfl), h⟩
    · exact ⟨['-'], .inr (.inr rfl), h⟩
  · rintro ⟨sign, rfl | rfl | rfl, h⟩
    · exact .inl (.inl h)
    · exact .inl (.inr h)
    · exact .inr h

/-! ## Literals with a radix -/

theorem exists_radix?_of_announces {letter : Char} {digits : List Char}
    (h : Announces letter digits) :
    ∃ radix, radix? letter = some radix ∧ (radix, digits) ∈ radixDigits := by
  cases h with
  | hexadecimal h =>
      refine ⟨16, ?_, by simp [radixDigits]⟩
      rcases h with rfl | rfl <;> rfl
  | octal h =>
      refine ⟨8, ?_, by simp [radixDigits]⟩
      rcases h with rfl | rfl <;> rfl
  | binary h =>
      refine ⟨2, ?_, by simp [radixDigits]⟩
      rcases h with rfl | rfl <;> rfl

theorem exists_announces_of_radix? {letter : Char} {radix : Nat} (h : radix? letter = some radix) :
    ∃ digits, Announces letter digits := by
  rw [radix?] at h
  split_ifs at h with hx ho hb
  · exact ⟨_, .hexadecimal hx⟩
  · exact ⟨_, .octal ho⟩
  · exact ⟨_, .binary hb⟩

theorem isSome_natural?_iff_of_radix? {letter : Char} {radix : Nat} {cs : List Char}
    (h : radix? letter = some radix) :
    (natural? radix cs).isSome ↔ ∃ digits, Announces letter digits ∧ IsNumeral digits cs := by
  have hread : ∀ {digits}, Announces letter digits →
      ((natural? radix cs).isSome ↔ IsNumeral digits cs) := by
    intro digits hletter
    obtain ⟨radix', hradix', hdigits⟩ := exists_radix?_of_announces hletter
    obtain rfl := Option.some.inj (h.symm.trans hradix')
    exact isSome_natural?_iff hdigits
  constructor
  · intro hcs
    obtain ⟨digits, hletter⟩ := exists_announces_of_radix? h
    exact ⟨digits, hletter, (hread hletter).1 hcs⟩
  · rintro ⟨digits, hletter, hcs⟩
    exact (hread hletter).2 hcs

/-! ## Decimals -/

theorem isDecimalChar_iff_mem {c : Char} :
    isDecimalChar c = true ↔ c ∈ decimalDigits ++ ['+', '-', '.', 'e', 'E'] := by
  simp [isDecimalChar, isDigit_iff_mem, or_assoc]

theorem isDecimalChar_of_mem_decimalDigits {c : Char} (h : c ∈ decimalDigits) :
    isDecimalChar c = true :=
  isDecimalChar_iff_mem.2 (List.mem_append_left _ h)

theorem isDecimalChar_of_isFraction {cs : List Char} (h : IsFraction cs) :
    ∀ c ∈ cs, isDecimalChar c = true := by
  have hsign : ∀ {sign}, IsSign sign → ∀ c ∈ sign, isDecimalChar c = true := by
    rintro _ (rfl | rfl | rfl) <;> exact List.all_eq_true.1 rfl
  have hdigits : ∀ {digits : List Char}, (∀ c ∈ digits, c ∈ decimalDigits) →
      ∀ c ∈ digits, isDecimalChar c = true :=
    fun h c hc => isDecimalChar_of_mem_decimalDigits (h c hc)
  have hpoint : isDecimalChar '.' = true := rfl
  obtain ⟨sign, mantissa, exponent, hs, hm, he, rfl⟩ := h
  simp only [List.forall_mem_append]
  refine ⟨⟨hsign hs, ?_⟩, ?_⟩
  · cases hm with
    | whole h => exact hdigits h.mem
    | point h hpart =>
        simp only [List.forall_mem_append, List.forall_mem_cons]
        exact ⟨hdigits h.mem, hpoint, hdigits hpart⟩
    | part h => exact List.forall_mem_cons.2 ⟨hpoint, hdigits h.mem⟩
  · cases he with
    | none => exact List.forall_mem_nil _
    | power he hs h =>
        simp only [List.forall_mem_cons, List.forall_mem_append]
        refine ⟨?_, hsign hs, hdigits h.mem⟩
        rcases he with rfl | rfl <;> rfl

/-- Every word that is read as a float has an `n`. -/
theorem exists_toLower_eq_of_isFloatWord {cs : List Char} (h : IsFloatWord cs) :
    ∃ c ∈ cs, c.toLower = 'n' := by
  have hn : ∀ {word}, 'n' ∈ word.toList → isWord word cs = true → ∃ c ∈ cs, c.toLower = 'n' := by
    intro word hword hcs
    rw [isWord, beq_iff_eq] at hcs
    rwa [← hcs, List.mem_map] at hword
  rcases h with h | h | h
  · exact hn (by simp) h
  · exact hn (by simp) h
  · exact hn (by simp) h

theorem readsAsDecimal_iff {cs : List Char} : readsAsDecimal cs = true ↔ IsFraction cs := by
  rw [readsAsDecimal, Bool.and_eq_true, List.all_eq_true, isSome_readFloat?_iff]
  constructor
  · rintro ⟨hchars, h | ⟨sign, word, -, hword, rfl⟩⟩
    · exact h
    · obtain ⟨c, hc, hn⟩ := exists_toLower_eq_of_isFloatWord hword
      have hmem := isDecimalChar_iff_mem.1 (hchars c (List.mem_append_right _ hc))
      have hother : (decimalDigits ++ ['+', '-', '.', 'e', 'E']).all (·.toLower != 'n') = true := rfl
      simpa [hn] using List.all_eq_true.1 hother c hmem
  · intro h
    exact ⟨isDecimalChar_of_isFraction h, .inl h⟩

/-! ## Names -/

theorem not_isDecimalChar_of_announces {letter : Char} {digits : List Char}
    (h : Announces letter digits) : isDecimalChar letter = false := by
  cases h with
  | hexadecimal h => rcases h with rfl | rfl <;> rfl
  | octal h => rcases h with rfl | rfl <;> rfl
  | binary h => rcases h with rfl | rfl <;> rfl

theorem readsAsNumber_iff {cs : List Char} : readsAsNumber cs = true ↔ IsNumericLiteral cs := by
  unfold readsAsNumber
  rw [Bool.or_eq_true, isInfinity_iff]
  constructor
  · rintro (⟨sign, hsign, rfl⟩ | h)
    · exact .infinity hsign
    · split at h
      · split at h
        · next radix hradix =>
          obtain ⟨digits, hletter, hdigits⟩ := (isSome_natural?_iff_of_radix? hradix).1 h
          exact .radix hletter hdigits
        · exact .decimal (readsAsDecimal_iff.1 h)
      · exact .decimal (readsAsDecimal_iff.1 h)
  · intro h
    cases h with
    | infinity hsign => exact .inl ⟨_, hsign, rfl⟩
    | radix hletter h =>
        obtain ⟨radix, hradix, hdigits⟩ := exists_radix?_of_announces hletter
        simp only [hradix]
        exact .inr ((isSome_natural?_iff hdigits).2 h)
    | decimal h =>
        right
        split
        · next letter digits =>
          split
          · -- a decimal has no letter that announces a radix
            next radix hradix =>
            obtain ⟨digits, hletter⟩ := exists_announces_of_radix? hradix
            have hchar := isDecimalChar_of_isFraction h letter (by simp)
            rw [not_isDecimalChar_of_announces hletter] at hchar
            cases hchar
          · exact readsAsDecimal_iff.2 h
        · exact readsAsDecimal_iff.2 h

/-- A name is refused exactly if what is left of it without the white space at its ends is empty or
a numeric literal. -/
theorem checkName_refuses_exactly (name : String) :
    Text.TrimsTo name.toList (Text.trim name.toList) ∧
      (checkName name = .error .blank ↔ Text.trim name.toList = []) ∧
      (checkName name = .error .numeric ↔ IsNumericLiteral (Text.trim name.toList)) ∧
      (checkName name = .ok () ↔
        Text.trim name.toList ≠ [] ∧ ¬ IsNumericLiteral (Text.trim name.toList)) := by
  have hempty : ¬ IsNumericLiteral [] := fun h => absurd (readsAsNumber_iff.2 h) (by decide)
  refine ⟨Text.trimsTo_trim name.toList, ?_⟩
  simp only [checkName, ← readsAsNumber_iff]
  generalize Text.trim name.toList = cs
  cases cs with
  | nil => simp [readsAsNumber_iff, hempty]
  | cons c cs => cases readsAsNumber (c :: cs) <;> simp

example : ["0e5", " -.5E+3\t", "0b2", "1e", "+0x1", "-inf", "+."].map
    (fun name => (checkName name).isOk) = [false, false, true, true, true, true, true] := by
  decide +kernel

end Directive

end StepGraph
