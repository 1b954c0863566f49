import StepGraph.Yaml.Scalar.Fold

/-!
# Scalars without quotes

A scalar without quotes ends at a colon before a gap, at a comment, at a line that is indented less
than its content may be, and in a flow collection also at the punctuation of the collection.
-/

namespace StepGraph.Yaml

/-- The word in front; in a flow collection a colon may not stand before punctuation. -/
def bareWord (flow : Bool) : List Char → Option (List Char)
  | [] => some []
  | c :: cs =>
    let colon := c == ':'
    let next := cs.head?
    let clash := match next with
      | some d => d == '?' || isFlowIndicator d
      | none => false
    if isGap (some c) then some []
    else if flow && colon && clash then none
    else if (colon && isGap next) || (flow && isFlowIndicator c) then some []
    else (bareWord flow cs).map (c :: ·)

/-- A scalar without quotes that has been read. -/
structure Bare where
  text : List Char
  /-- Has a line ended after its last word? -/
  broken : Bool
  after : Cursor

/-- Reads on after `text` and the fold `f`. -/
def Bare.readOn (flow : Bool) (indent : Nat) : Nat → List Char → Fold → Cursor → Option Bare
  | 0, _, _, _ => none
  | fuel + 1, text, f, c =>
    if c.atMarker || c.at? '#' then some ⟨text, f.broken, c⟩
    else do
      let word ← bareWord flow c.rest
      if word.isEmpty then return ⟨text, f.broken, c⟩
      let text := text ++ f.text ++ word
      let c := c.advance word.length
      if c.rest.isEmpty || !isGap c.peek? then return ⟨text, false, c⟩
      let (f, c) ← Fold.read indent {} c
      if !flow && c.column < indent then return ⟨text, f.broken, c⟩
      readOn flow indent fuel text f c

/-- Reads a scalar whose further lines start at the column `indent` or behind it. -/
def Bare.read (flow : Bool) (indent : Nat) (c : Cursor) : Option Bare :=
  readOn flow indent (c.rest.length + 1) [] {} c

end StepGraph.Yaml
