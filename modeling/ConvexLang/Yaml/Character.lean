/-!
# The characters of YAML

The classes of characters that the readers of a YAML document tell apart, and
the value of digits. Line ends come in many forms; `unifyBreaks` makes one
newline of each, except of the line and the paragraph separator, which stay what
they are where a text keeps its line ends.
-/

namespace ConvexLang.Yaml

/-! ## Classes -/

/-- Whether a character may stand in a document. -/
def isAdmitted (c : Char) : Bool :=
  c = '\t' || c = '\n' || c = '\r' || (' ' ≤ c && c ≤ '~') || c = '\u0085'
    || ('\u00a0' ≤ c && c.toNat ≠ 0xFFFE && c.toNat ≠ 0xFFFF)

/-- The text with the line ends of most systems made newlines. -/
def unifyBreaks : List Char → List Char
  | [] => []
  | '\r' :: '\n' :: r => '\n' :: unifyBreaks r
  | c :: r => (if c = '\r' ∨ c = '\u0085' then '\n' else c) :: unifyBreaks r

/-- No line ends in a carriage return any more. -/
theorem carriageReturn_not_mem_unifyBreaks (cs : List Char) : '\r' ∉ unifyBreaks cs := by
  fun_induction unifyBreaks cs with
  | case1 => simp
  | case2 r ih => simpa using ih
  | case3 c r h ih => by_cases hc : c = '\r' ∨ c = '\u0085' <;> simp_all [eq_comm]

/-- Whether a character is a space or a tab. -/
def isSpace (c : Char) : Bool :=
  c = ' ' || c = '\t'

/-- Whether a character ends a line. -/
def isBreak (c : Char) : Bool :=
  c = '\n' || c = '\u2028' || c = '\u2029'

/-- Whether a character parts words. -/
def isGap (c : Char) : Bool :=
  isSpace c || isBreak c

/-- Whether a text is over or goes on with a space, a tab or a line end. -/
def isGapNext (cs : List Char) : Bool :=
  (cs.head?.map isGap).getD true

/-- The signs of sequences and mappings in brackets. -/
def isBracketSign (c : Char) : Bool :=
  [',', '[', ']', '\x7b', '\x7d'].contains c

/-- Whether a character may belong to the name of an anchor, a directive or a
    family of tags. -/
def isNameChar (c : Char) : Bool :=
  c.isAlphanum || c = '_' || c = '-'

/-- The mark of the byte order, which may start a line. -/
def byteOrderMark : Char :=
  '\ufeff'

/-! ## Digits -/

/-- The value of a hexadecimal digit. -/
def hexValue? (c : Char) : Option Nat :=
  if c.isDigit then some (c.toNat - 48)
  else if 'a' ≤ c ∧ c ≤ 'f' then some (c.toNat - 87)
  else if 'A' ≤ c ∧ c ≤ 'F' then some (c.toNat - 55)
  else none

/-- The number that digits in the base `base` stand for. -/
def valueIn? (base : Nat) (cs : List Char) : Option Nat :=
  if cs.isEmpty then none
  else
    cs.foldl (fun total c => do
      let t ← total
      let d ← hexValue? c
      if d < base then some (base * t + d) else none) (some 0)

/-- The character with a number, if there is one. -/
def charOf? (n : Nat) : Option Char :=
  if n.isValidChar then some (Char.ofNat n) else none

end ConvexLang.Yaml
