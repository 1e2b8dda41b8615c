/-
  FlowDocs/Json/Reader.lean
  =========================
  **Reading JSON text, with the place of every fault.**

  A reader takes the text that is left and gives a value and what is left after
  it, or stops.  A stop remembers the text left when it happened and how many
  bytes beyond it the fault lies, so no reader carries a position: the line and
  column are worked out once, at the end, from the whole text.

  Numbers without fraction and exponent are integers as long as 64 bits hold
  them.  Every other number is a double, computed from the leading digits that fit
  64 bits by one multiplication or division per 308 powers of ten; that is the
  format's own rule and not always the nearest double.
-/
import FlowDocs.Json.Value

namespace FlowDocs.Json

/-! ### Faults and where they are -/

/-- What can be wrong with a text. -/
inductive Fault where
  | endInValue
  | endInList
  | endInObject
  | endInString
  | expectedValue
  | expectedWord
  | expectedColon
  | expectedListEnd
  | expectedObjectEnd
  | trailingComma
  | keyNotString
  | invalidNumber
  | numberOutOfRange
  | invalidEscape
  | loneSurrogate
  | unfinishedSurrogate
  | controlCharacter
  | trailingCharacters
  | tooDeep
deriving DecidableEq, Repr

def Fault.message : Fault → String
  | .endInValue => "EOF while parsing a value"
  | .endInList => "EOF while parsing a list"
  | .endInObject => "EOF while parsing an object"
  | .endInString => "EOF while parsing a string"
  | .expectedValue => "expected value"
  | .expectedWord => "expected ident"
  | .expectedColon => "expected `:`"
  | .expectedListEnd => "expected `,` or `]`"
  | .expectedObjectEnd => "expected `,` or `\x7d`"
  | .trailingComma => "trailing comma"
  | .keyNotString => "key must be a string"
  | .invalidNumber => "invalid number"
  | .numberOutOfRange => "number out of range"
  | .invalidEscape => "invalid escape"
  | .loneSurrogate => "lone leading surrogate in hex escape"
  | .unfinishedSurrogate => "unexpected end of hex escape"
  | .controlCharacter => "control character (\\u0000-\\u001F) found while parsing a string"
  | .trailingCharacters => "trailing characters"
  | .tooDeep => "recursion limit exceeded"

/-- A fault with its line, from 1, and its column in bytes. -/
structure SyntaxError where
  fault : Fault
  line : Nat
  column : Nat
deriving DecidableEq, Repr

def SyntaxError.message (e : SyntaxError) : String :=
  e.fault.message ++ " at line " ++ toString e.line ++ " column " ++ toString e.column

/-- A reader's stop: the fault lies `past` bytes into the text that was left. -/
structure Stop where
  fault : Fault
  rest : List Char
  past : Nat
deriving DecidableEq, Repr

def byteCount (cs : List Char) : Nat := cs.foldl (fun n c => n + c.utf8Size) 0

/-- The line and column reached after a number of bytes. -/
def placeAfter (line column : Nat) : Nat → List Char → Nat × Nat
  | _, [] => (line, column)
  | bytes, c :: cs =>
    if bytes < c.utf8Size then (line, column + bytes)
    else if c = '\n' then placeAfter (line + 1) 0 (bytes - 1) cs
    else placeAfter line (column + c.utf8Size) (bytes - c.utf8Size) cs

def Stop.locate (text : List Char) (stop : Stop) : SyntaxError :=
  let left := byteCount stop.rest
  let place := placeAfter 1 0 (byteCount text - left + min stop.past left) text
  ⟨stop.fault, place.1, place.2⟩

/-- What a reader gives: a value and the text left after it, or a stop. -/
abbrev Read (α : Type) := Except Stop (α × List Char)

def atEnd {α : Type} (fault : Fault) : Read α := .error ⟨fault, [], 0⟩

def atHead {α : Type} (fault : Fault) (rest : List Char) : Read α := .error ⟨fault, rest, 1⟩

/-! ### Layout and words -/

/-- The blanks that may stand between the parts of a value. -/
def isLayout (c : Char) : Bool := c == ' ' || c == '\t' || c == '\n' || c == '\r'

def skipLayout (cs : List Char) : List Char := cs.dropWhile isLayout

/-- Read the letters of a word and give the value it stands for. -/
def readWord (value : Json) : List Char → List Char → Read Json
  | [], cs => .ok (value, cs)
  | _ :: _, [] => atEnd .endInValue
  | w :: ws, c :: cs => if c = w then readWord value ws cs else atHead .expectedWord (c :: cs)

/-! ### Numbers -/

/-- The largest integer of 64 bits, `2 ^ 64 - 1`. -/
def maxWord : Nat := 0xFFFFFFFFFFFFFFFF

/-- The magnitude of the least integer of 64 bits with a sign, `2 ^ 63`. -/
def maxNegated : Nat := 0x8000000000000000

/-- The first exponent that 31 bits do not hold, `2 ^ 31`. -/
def exponentLimit : Nat := 0x80000000

def digitValue (c : Char) : Nat := c.toNat - 48

/-- Read digits on to a significand while 64 bits hold it.  The digits after the
    first that does not fit are dropped and counted. -/
def takeWhole (significand : Nat) : List Char → Nat × Nat × List Char
  | [] => (significand, 0, [])
  | c :: cs =>
    if c.isDigit then
      let next := significand * 10 + digitValue c
      if next ≤ maxWord then takeWhole next cs
      else (significand, ((c :: cs).takeWhile Char.isDigit).length, cs.dropWhile Char.isDigit)
    else (significand, 0, c :: cs)

/-- Read the digits of a fraction on to a significand while 64 bits hold it, and
    count them.  The digits after the first that does not fit are ignored. -/
def takeFraction (significand : Nat) : List Char → Nat × Nat × List Char
  | [] => (significand, 0, [])
  | c :: cs =>
    if c.isDigit then
      let next := significand * 10 + digitValue c
      if next ≤ maxWord then
        let (s, taken, rest) := takeFraction next cs
        (s, taken + 1, rest)
      else (significand, 0, cs.dropWhile Char.isDigit)
    else (significand, 0, c :: cs)

/-- Read the digits of an exponent; nothing when 31 bits do not hold it, and then
    the text left is what follows the digit that went too far. -/
def takeExponent (exponent : Nat) : List Char → Option Nat × List Char
  | [] => (some exponent, [])
  | c :: cs =>
    if c.isDigit then
      let next := exponent * 10 + digitValue c
      if next < exponentLimit then takeExponent next cs else (none, cs)
    else (some exponent, c :: cs)

/-- The double nearest to a power of ten. -/
def powerOfTen (n : Nat) : Float := Float.ofScientific 1 false n

/-- `x · 10 ^ power` by one step per 308 powers of ten; nothing when it is too
    large for a double. -/
def scaleBy (x : Float) (power : Int) : Option Float :=
  if power.natAbs ≤ 308 then
    if 0 ≤ power then
      let y := x * powerOfTen power.toNat
      if y.isInf then none else some y
    else some (x / powerOfTen (-power).toNat)
  else if x == 0.0 then some x
  else if 0 ≤ power then none
  else scaleBy (x / powerOfTen 308) (power + 308)
termination_by (-power).toNat
decreasing_by omega

def signed (negative : Bool) (x : Float) : Number := .double (if negative then -x else x)

/-- The double `significand · 10 ^ power`; `rest` is what follows its last digit. -/
def assemble (negative : Bool) (significand : Nat) (power : Int) (rest : List Char) : Read Number :=
  match scaleBy (Float.ofNat significand) power with
  | some x => .ok (signed negative x, rest)
  | none => .error ⟨.numberOutOfRange, rest, 0⟩

/-- Read what follows the `e` of a number. -/
def readExponent (negative : Bool) (significand : Nat) (power : Int) (cs : List Char) :
    Read Number :=
  let (down, cs) := match cs with
    | '+' :: cs => (false, cs)
    | '-' :: cs => (true, cs)
    | cs => (false, cs)
  match cs with
  | [] => atEnd .endInValue
  | c :: rest =>
    if c.isDigit then
      match takeExponent (digitValue c) rest with
      | (some n, rest) => assemble negative significand (if down then power - n else power + n) rest
      | (none, rest) =>
        if significand ≠ 0 ∧ ¬down then .error ⟨.numberOutOfRange, rest, 0⟩
        else .ok (signed negative 0.0, rest.dropWhile Char.isDigit)
    else atHead .invalidNumber (c :: rest)

def readScale (negative : Bool) (significand : Nat) (power : Int) (cs : List Char) : Read Number :=
  match cs with
  | 'e' :: rest => readExponent negative significand power rest
  | 'E' :: rest => readExponent negative significand power rest
  | rest => assemble negative significand power rest

def wholeNumber (negative : Bool) (significand : Nat) : Number :=
  if negative then
    if significand = 0 ∨ maxNegated < significand then signed true (Float.ofNat significand)
    else .integer (-(significand : Int))
  else .integer significand

/-- Read what follows the whole digits of a number, `dropped` of which did not fit
    the significand. -/
def readFraction (negative : Bool) (significand dropped : Nat) (cs : List Char) : Read Number :=
  match cs with
  | '.' :: rest =>
    match rest with
    | [] => atEnd .endInValue
    | c :: _ =>
      if c.isDigit then
        let (s, taken, rest) := takeFraction significand rest
        readScale negative s ((dropped : Int) - taken) rest
      else atHead .invalidNumber rest
  | 'e' :: rest => readExponent negative significand dropped rest
  | 'E' :: rest => readExponent negative significand dropped rest
  | rest =>
    if dropped = 0 then .ok (wholeNumber negative significand, rest)
    else assemble negative significand dropped rest

def readNumber (negative : Bool) (cs : List Char) : Read Number :=
  match cs with
  | [] => atEnd .endInValue
  | c :: rest =>
    if c = '0' then
      match rest with
      | d :: _ =>
        if d.isDigit then atHead .invalidNumber rest else readFraction negative 0 0 rest
      | [] => readFraction negative 0 0 []
    else if c.isDigit then
      let (significand, dropped, rest) := takeWhole (digitValue c) rest
      readFraction negative significand dropped rest
    else atHead .invalidNumber (c :: rest)

/-! ### Strings -/

def hexValue? (c : Char) : Option Nat :=
  if c.isDigit then some (c.toNat - 48)
  else if 'a' ≤ c ∧ c ≤ 'f' then some (c.toNat - 87)
  else if 'A' ≤ c ∧ c ≤ 'F' then some (c.toNat - 55)
  else none

def readHex (cs : List Char) : Read Nat :=
  if byteCount (cs.take 4) < 4 then atEnd .endInString
  else
    let bad : Read Nat := .error ⟨.invalidEscape, cs, 4⟩
    match cs with
    | a :: b :: c :: d :: rest =>
      match hexValue? a, hexValue? b, hexValue? c, hexValue? d with
      | some a, some b, some c, some d => .ok (((a * 16 + b) * 16 + c) * 16 + d, rest)
      | _, _, _, _ => bad
    | _ => bad

/-- Read the second half of a character written as two escapes, the first of which
    was `high`. -/
def readLowHalf (high : Nat) (cs : List Char) : Read Char :=
  match cs with
  | [] => atEnd .endInString
  | '\\' :: [] => atEnd .endInString
  | '\\' :: 'u' :: rest =>
    match readHex rest with
    | .error stop => .error stop
    | .ok (low, rest) =>
      if low < 0xdc00 ∨ 0xdfff < low then .error ⟨.loneSurrogate, rest, 0⟩
      else .ok (Char.ofNat ((high - 0xd800) * 0x400 + (low - 0xdc00) + 0x10000), rest)
  | '\\' :: rest => atHead .unfinishedSurrogate rest
  | rest => atHead .unfinishedSurrogate rest

/-- Read what follows the `\u` of an escape. -/
def readCodePoint (cs : List Char) : Read Char :=
  match readHex cs with
  | .error stop => .error stop
  | .ok (n, rest) =>
    if 0xdc00 ≤ n ∧ n ≤ 0xdfff then .error ⟨.loneSurrogate, rest, 0⟩
    else if n < 0xd800 ∨ 0xdbff < n then .ok (Char.ofNat n, rest)
    else readLowHalf n rest

def readEscape (cs : List Char) : Read Char :=
  match cs with
  | [] => atEnd .endInString
  | c :: rest =>
    if c = '"' ∨ c = '\\' ∨ c = '/' then .ok (c, rest)
    else if c = 'b' then .ok ('\x08', rest)
    else if c = 'f' then .ok ('\x0c', rest)
    else if c = 'n' then .ok ('\n', rest)
    else if c = 'r' then .ok ('\r', rest)
    else if c = 't' then .ok ('\t', rest)
    else if c = 'u' then readCodePoint rest
    else atHead .invalidEscape (c :: rest)

theorem length_of_readHex {cs rest : List Char} {n : Nat} (h : readHex cs = .ok (n, rest)) :
    rest.length < cs.length := by
  unfold readHex at h
  split at h
  · simp [atEnd] at h
  · dsimp only at h
    split at h
    · split at h
      · simp only [Except.ok.injEq, Prod.mk.injEq] at h
        rw [← h.2]; simp only [List.length_cons]; omega
      · simp at h
    · simp at h

theorem length_of_readCodePoint {cs rest : List Char} {c : Char}
    (h : readCodePoint cs = .ok (c, rest)) : rest.length < cs.length := by
  unfold readCodePoint at h
  split at h
  · simp at h
  · rename_i n rest' hn
    have hl := length_of_readHex hn
    split at h
    · simp at h
    · split at h
      · simp only [Except.ok.injEq, Prod.mk.injEq] at h
        rw [← h.2]; exact hl
      · unfold readLowHalf at h
        split at h
        · simp [atEnd] at h
        · simp [atEnd] at h
        · split at h
          · simp at h
          · rename_i rest'' _ low rest''' hlow
            have hl' := length_of_readHex hlow
            split at h
            · simp at h
            · simp only [Except.ok.injEq, Prod.mk.injEq] at h
              rw [← h.2]
              simp only [List.length_cons] at hl
              omega
        · simp [atHead] at h
        · simp [atHead] at h

theorem length_of_readEscape {cs rest : List Char} {c : Char}
    (h : readEscape cs = .ok (c, rest)) : rest.length < cs.length := by
  unfold readEscape at h
  split at h
  · simp [atEnd] at h
  · rename_i d rest'
    repeat'
      first
      | (split at h)
      | (simp only [Except.ok.injEq, Prod.mk.injEq] at h; rw [← h.2]; simp)
    · have := length_of_readCodePoint h
      simp only [List.length_cons]; omega
    · simp [atHead] at h

/-- Read the characters of a string up to and including the closing quote. -/
def readString (cs : List Char) : Read (List Char) :=
  match cs with
  | [] => atEnd .endInString
  | c :: rest =>
    if c = '"' then .ok ([], rest)
    else if c = '\\' then
      match _read : readEscape rest with
      | .error stop => .error stop
      | .ok (d, rest') =>
        match readString rest' with
        | .error stop => .error stop
        | .ok (ds, left) => .ok (d :: ds, left)
    else if c.toNat < 0x20 then atHead .controlCharacter (c :: rest)
    else
      match readString rest with
      | .error stop => .error stop
      | .ok (ds, left) => .ok (c :: ds, left)
termination_by cs.length
decreasing_by
  all_goals first
    | (have shorter := length_of_readEscape _read; simp only [List.length_cons]; omega)
    | (simp only [List.length_cons]; omega)

/-! ### Values -/

def maxDepth : Nat := 127

mutual

/-- Read a value.  `depth` more levels may be opened; `fuel` bounds the calls and
    the length of the text is always enough. -/
def readValue (fuel depth : Nat) (cs : List Char) : Read Json :=
  match fuel with
  | 0 => atEnd .endInValue
  | fuel + 1 =>
    match skipLayout cs with
    | [] => atEnd .endInValue
    | c :: rest =>
      if c = 'n' then readWord .null ['u', 'l', 'l'] rest
      else if c = 't' then readWord (.bool true) ['r', 'u', 'e'] rest
      else if c = 'f' then readWord (.bool false) ['a', 'l', 's', 'e'] rest
      else if c = '-' then
        match readNumber true rest with
        | .error stop => .error stop
        | .ok (n, rest) => .ok (.num n, rest)
      else if c.isDigit then
        match readNumber false (c :: rest) with
        | .error stop => .error stop
        | .ok (n, rest) => .ok (.num n, rest)
      else if c = '"' then
        match readString rest with
        | .error stop => .error stop
        | .ok (s, rest) => .ok (.str (String.ofList s), rest)
      else if c = '[' then
        if depth = 0 then atHead .tooDeep (c :: rest)
        else
          match skipLayout rest with
          | [] => atEnd .endInList
          | ']' :: rest => .ok (.arr [], rest)
          | rest =>
            match readValue fuel (depth - 1) rest with
            | .error stop => .error stop
            | .ok (x, rest) =>
              match readItems fuel (depth - 1) rest with
              | .error stop => .error stop
              | .ok (xs, rest) => .ok (.arr (x :: xs), rest)
      else if c = '\x7b' then
        if depth = 0 then atHead .tooDeep (c :: rest)
        else
          match skipLayout rest with
          | [] => atEnd .endInObject
          | '\x7d' :: rest => .ok (.obj [], rest)
          | '"' :: rest =>
            match readMember fuel (depth - 1) rest with
            | .error stop => .error stop
            | .ok (m, rest) =>
              match readMembers fuel (depth - 1) rest with
              | .error stop => .error stop
              | .ok (ms, rest) => .ok (.obj (Fields.ofEntries (m :: ms)), rest)
          | rest => atHead .keyNotString rest
      else atHead .expectedValue (c :: rest)

/-- Read the items of an array after one item, up to the closing bracket. -/
def readItems (fuel depth : Nat) (cs : List Char) : Read (List Json) :=
  match fuel with
  | 0 => atEnd .endInList
  | fuel + 1 =>
    match skipLayout cs with
    | [] => atEnd .endInList
    | ']' :: rest => .ok ([], rest)
    | ',' :: rest =>
      match skipLayout rest with
      | [] => atEnd .endInValue
      | ']' :: rest => atHead .trailingComma (']' :: rest)
      | rest =>
        match readValue fuel depth rest with
        | .error stop => .error stop
        | .ok (x, rest) =>
          match readItems fuel depth rest with
          | .error stop => .error stop
          | .ok (xs, rest) => .ok (x :: xs, rest)
    | rest => atHead .expectedListEnd rest

/-- Read a member of an object whose opening quote has been read. -/
def readMember (fuel depth : Nat) (cs : List Char) : Read (String × Json) :=
  match fuel with
  | 0 => atEnd .endInObject
  | fuel + 1 =>
    match readString cs with
    | .error stop => .error stop
    | .ok (name, rest) =>
      match skipLayout rest with
      | [] => atEnd .endInObject
      | ':' :: rest =>
        match readValue fuel depth rest with
        | .error stop => .error stop
        | .ok (value, rest) => .ok ((String.ofList name, value), rest)
      | rest => atHead .expectedColon rest

def readMembers (fuel depth : Nat) (cs : List Char) : Read (List (String × Json)) :=
  match fuel with
  | 0 => atEnd .endInObject
  | fuel + 1 =>
    match skipLayout cs with
    | [] => atEnd .endInObject
    | '\x7d' :: rest => .ok ([], rest)
    | ',' :: rest =>
      match skipLayout rest with
      | [] => atEnd .endInValue
      | '"' :: rest =>
        match readMember fuel depth rest with
        | .error stop => .error stop
        | .ok (m, rest) =>
          match readMembers fuel depth rest with
          | .error stop => .error stop
          | .ok (ms, rest) => .ok (m :: ms, rest)
      | '\x7d' :: rest => atHead .trailingComma ('\x7d' :: rest)
      | rest => atHead .keyNotString rest
    | rest => atHead .expectedObjectEnd rest

end

/-- Read a text that holds one value and nothing else. -/
def readText (text : List Char) : Except Stop Json :=
  match readValue (2 * text.length + 1) maxDepth text with
  | .error stop => .error stop
  | .ok (value, rest) =>
    match skipLayout rest with
    | [] => .ok value
    | rest => .error ⟨.trailingCharacters, rest, 1⟩

def parse (text : String) : Except SyntaxError Json :=
  match readText text.toList with
  | .ok value => .ok value
  | .error stop => .error (stop.locate text.toList)

end FlowDocs.Json
