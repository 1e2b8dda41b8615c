/-
  FlowDocs/Expression/Lexeme.lean
  ===============================
  **Splitting an expression into tokens.**

  The text is cut into lexemes from left to right, each the longest its rule
  allows, and nothing is lost: the lexemes of a text spell the text.  Most lexemes
  have a token.  Blanks have none, nor has a character no rule knows, nor a run of
  points without a digit; so every text has tokens and no text is refused.
-/
import FlowDocs.Expression.Token
import FlowDocs.Text.Blank

namespace FlowDocs

/-- A stretch of the text of an expression. -/
inductive Lexeme where
  | blank (c : Char)
  | quoted (quote : Char) (body : List Char) (closed : Bool)
  | operator (op : Operator)
  | number (run : List Char)
  | name (chars : List Char)
  | unknown (c : Char)
deriving DecidableEq, Repr

namespace Lexeme

def text : Lexeme → List Char
  | .blank c => [c]
  | .quoted q body closed => q :: body ++ (if closed then [q] else [])
  | .operator op => op.symbol
  | .number run => run
  | .name chars => chars
  | .unknown c => [c]

def token? : Lexeme → Option Token
  | .blank _ => none
  | .quoted _ body _ => some (.literal (.str (String.ofList body)))
  | .operator op => some (.operator op)
  | .number run => Token.ofNumberRun? run
  | .name chars => some (Token.ofName chars)
  | .unknown _ => none

/-- The operator at the start of a text, the longer one if two fit, and the text
    after it. -/
def operatorAt? (c : Char) (rest : List Char) : Option (Operator × List Char) :=
  let single := (Operator.ofSymbol? [c]).map fun op => (op, rest)
  match rest with
  | d :: rest' =>
    match Operator.ofSymbol? [c, d] with
    | some op => some (op, rest')
    | none => single
  | [] => single

/-- A string after its opening quote: it runs to the next quote of the same kind,
    or to the end of the text. -/
def quotedAt (quote : Char) (rest : List Char) : Lexeme × List Char :=
  match rest.dropWhile (· ≠ quote) with
  | [] => (.quoted quote rest false, [])
  | _ :: after => (.quoted quote (rest.takeWhile (· ≠ quote)) true, after)

/-- The first lexeme of the text `c :: rest`, and the text after it. -/
def first (c : Char) (rest : List Char) : Lexeme × List Char :=
  if Text.isBlank c then (.blank c, rest)
  else if c = '\'' ∨ c = '"' then quotedAt c rest
  else
    match operatorAt? c rest with
    | some (op, rest) => (.operator op, rest)
    | none =>
      if isNumberChar c then
        (.number (c :: rest.takeWhile isNumberChar), rest.dropWhile isNumberChar)
      else if isNameStart c then
        (.name (c :: rest.takeWhile isNameChar), rest.dropWhile isNameChar)
      else (.unknown c, rest)

theorem length_dropWhile_le (p : Char → Bool) (cs : List Char) :
    (cs.dropWhile p).length ≤ cs.length :=
  (List.dropWhile_sublist p).length_le

theorem length_quotedAt (quote : Char) (rest : List Char) :
    (quotedAt quote rest).2.length ≤ rest.length := by
  have h := length_dropWhile_le (· ≠ quote) rest
  unfold quotedAt
  split
  · simp
  · rename_i after heq
    rw [heq] at h
    simp only [List.length_cons] at h
    show after.length ≤ rest.length
    omega

theorem length_operatorAt? {c : Char} {rest rest' : List Char} {op : Operator}
    (h : operatorAt? c rest = some (op, rest')) : rest'.length ≤ rest.length := by
  unfold operatorAt? at h
  dsimp only at h
  split at h
  · split at h
    · simp only [Option.some.injEq, Prod.mk.injEq] at h
      rw [← h.2]; simp
    · simp only [Option.map_eq_some_iff, Prod.mk.injEq] at h
      obtain ⟨_, _, _, h⟩ := h
      subst h; exact Nat.le_refl _
  · simp only [Option.map_eq_some_iff, Prod.mk.injEq] at h
    obtain ⟨_, _, _, h⟩ := h
    subst h; exact Nat.le_refl _

/-- Every lexeme uses up its first character at least. -/
theorem length_first (c : Char) (rest : List Char) : (first c rest).2.length ≤ rest.length := by
  unfold first
  split
  · exact Nat.le_refl _
  · split
    · exact length_quotedAt c rest
    · split
      · exact length_operatorAt? ‹_›
      · split
        · exact length_dropWhile_le _ _
        · split
          · exact length_dropWhile_le _ _
          · exact Nat.le_refl _

end Lexeme

def lexemes (cs : List Char) : List Lexeme :=
  match cs with
  | [] => []
  | c :: rest => (Lexeme.first c rest).1 :: lexemes (Lexeme.first c rest).2
termination_by cs.length
decreasing_by
  have := Lexeme.length_first c rest
  simp only [List.length_cons]; omega

def tokenize (text : List Char) : List Token := (lexemes text).filterMap Lexeme.token?

end FlowDocs
