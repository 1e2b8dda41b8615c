/-
  FlowDocs/Text/Blank.lean
  ========================
  **White space.**

  Expressions, JSON layout and trimming need to know which characters are blank.
  `isBlank` is the Unicode property `White_Space`: the six ASCII layout characters
  that core's `Char.isWhitespace` knows in part, and nineteen more beyond ASCII.
  `trim` drops blanks at both ends and nothing inside.
-/

namespace FlowDocs.Text

/-- The characters with the Unicode property `White_Space`. -/
def isBlank (c : Char) : Bool :=
  let n := c.toNat
  (0x09 ≤ n && n ≤ 0x0d) || n == 0x20 || n == 0x85 || n == 0xa0 || n == 0x1680 ||
    (0x2000 ≤ n && n ≤ 0x200a) || n == 0x2028 || n == 0x2029 || n == 0x202f ||
    n == 0x205f || n == 0x3000

def trimStart (cs : List Char) : List Char := cs.dropWhile isBlank

def trimEnd (cs : List Char) : List Char := (cs.reverse.dropWhile isBlank).reverse

def trim (cs : List Char) : List Char := trimEnd (trimStart cs)

example : trim " \t\u00a0a b\u2003\n".toList = "a b".toList := by decide
example : isBlank '\u200b' = false := by decide

end FlowDocs.Text
