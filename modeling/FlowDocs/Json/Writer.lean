/-
  FlowDocs/Json/Writer.lean
  =========================
  **JSON as text: compact and indented.**

  `compact` writes a value without any layout, `pretty` with two blanks per level
  and one item per line.  A string escapes the quote, the backslash and the
  control characters and keeps every other character.  A double is written with
  the fewest digits that read back: plainly while its leading digit stands
  between `10 ^ -5` and `10 ^ 15`, always with a fraction, and in scientific
  notation beyond.
-/
import FlowDocs.Json.Value
import FlowDocs.Numeric.Shortest

namespace FlowDocs.Json

/-! ### Scalars -/

def integerText (n : Int) : List Char :=
  if n < 0 then '-' :: Nat.toDigits 10 n.natAbs else Nat.toDigits 10 n.natAbs

/-- The digits `ds` with the point after the first `whole` of them, zeros filling
    up on either side. -/
def plainText (ds : List Char) (whole : Int) : List Char :=
  if whole ≤ 0 then '0' :: '.' :: List.replicate (-whole).toNat '0' ++ ds
  else if (ds.length : Int) ≤ whole then
    ds ++ List.replicate (whole.toNat - ds.length) '0' ++ ['.', '0']
  else ds.take whole.toNat ++ '.' :: ds.drop whole.toNat

/-- The digits `ds` with the point after the first, and a power of ten. -/
def scientificText (ds : List Char) (power : Int) : List Char :=
  let fraction := match ds.drop 1 with
    | [] => []
    | rest => '.' :: rest
  ds.take 1 ++ fraction ++ 'e' :: (if power < 0 then '-' else '+') ::
    Nat.toDigits 10 power.natAbs

/-- A finite double with the fewest digits that read back.  What is not finite has
    no number to write and is written as `null`. -/
def doubleText (x : Float) : List Char :=
  match Numeric.dyadic? x with
  | none => ['n', 'u', 'l', 'l']
  | some d =>
    let magnitude :=
      if d.mantissa = 0 then ['0', '.', '0']
      else
        let s := Numeric.shortest d.mantissa d.exponent
        let ds := Nat.toDigits 10 s.digits
        let power : Int := s.exponent + ds.length - 1
        if -5 ≤ power ∧ power < 16 then plainText ds (power + 1) else scientificText ds power
    if d.negative then '-' :: magnitude else magnitude

def numberText : Number → List Char
  | .integer n => integerText n
  | .double x => doubleText x

def hexDigit (n : Nat) : Char := Nat.digitChar (n % 16)

/-- One character inside a string. -/
def escaped (c : Char) : List Char :=
  if c = '"' then ['\\', '"']
  else if c = '\\' then ['\\', '\\']
  else if c = '\x08' then ['\\', 'b']
  else if c = '\x0c' then ['\\', 'f']
  else if c = '\n' then ['\\', 'n']
  else if c = '\r' then ['\\', 'r']
  else if c = '\t' then ['\\', 't']
  else if c.toNat < 0x20 then
    ['\\', 'u', '0', '0', hexDigit (c.toNat / 16), hexDigit c.toNat]
  else [c]

def stringText (s : String) : List Char := '"' :: s.toList.flatMap escaped ++ ['"']

def boolText (b : Bool) : List Char :=
  if b then ['t', 'r', 'u', 'e'] else ['f', 'a', 'l', 's', 'e']

/-! ### Values without layout -/

mutual

/-- The text of a value without layout. -/
def compactText : Json → List Char
  | .null => ['n', 'u', 'l', 'l']
  | .bool b => boolText b
  | .num n => numberText n
  | .str s => stringText s
  | .arr [] => ['[', ']']
  | .arr (x :: xs) => '[' :: compactText x ++ compactItems xs
  | .obj [] => ['\x7b', '\x7d']
  | .obj ((name, value) :: rest) =>
    '\x7b' :: stringText name ++ ':' :: compactText value ++ compactFields rest

/-- The items after the first, and the closing bracket. -/
def compactItems : List Json → List Char
  | [] => [']']
  | x :: xs => ',' :: compactText x ++ compactItems xs

/-- The fields after the first, and the closing brace. -/
def compactFields : List (String × Json) → List Char
  | [] => ['\x7d']
  | (name, value) :: rest =>
    ',' :: stringText name ++ ':' :: compactText value ++ compactFields rest

end

def compact (value : Json) : String := String.ofList (compactText value)

/-! ### Values with layout -/

def newLine (level : Nat) : List Char := '\n' :: List.replicate (2 * level) ' '

mutual

/-- The text of a value that stands at a level of nesting. -/
def prettyText (level : Nat) : Json → List Char
  | .null => ['n', 'u', 'l', 'l']
  | .bool b => boolText b
  | .num n => numberText n
  | .str s => stringText s
  | .arr [] => ['[', ']']
  | .arr (x :: xs) =>
    '[' :: newLine (level + 1) ++ prettyText (level + 1) x ++ prettyItems level xs
  | .obj [] => ['\x7b', '\x7d']
  | .obj ((name, value) :: rest) =>
    '\x7b' :: newLine (level + 1) ++ stringText name ++ ':' :: ' ' ::
      prettyText (level + 1) value ++ prettyFields level rest

def prettyItems (level : Nat) : List Json → List Char
  | [] => newLine level ++ [']']
  | x :: xs =>
    ',' :: newLine (level + 1) ++ prettyText (level + 1) x ++ prettyItems level xs

/-- The fields after the first and the closing brace of an object at `level`. -/
def prettyFields (level : Nat) : List (String × Json) → List Char
  | [] => newLine level ++ ['\x7d']
  | (name, value) :: rest =>
    ',' :: newLine (level + 1) ++ stringText name ++ ':' :: ' ' ::
      prettyText (level + 1) value ++ prettyFields level rest

end

def pretty (value : Json) : String := String.ofList (prettyText 0 value)

example : doubleText 100000.0 = "100000.0".toList := by decide +kernel
example : doubleText 1e16 = "1e+16".toList := by decide +kernel
example : doubleText 0.00001 = "0.00001".toList := by decide +kernel
example : doubleText (-1.5e-7) = "-1.5e-7".toList := by decide +kernel

end FlowDocs.Json
