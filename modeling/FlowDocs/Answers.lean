/-
  FlowDocs/Answers.lean
  =====================
  **What the world answers when an expression asks.**

  Two names ask the world instead of the context: the current time and a fresh
  identifier.  A `Supply` holds the answers to all such questions of a
  computation.  It can be split in two, and a computation hands one half to each
  of its parts, so no two places ask the same question and evaluation stays a
  function of its arguments.  A constant supply gives the same answers everywhere.
-/

namespace FlowDocs

/-- The answers at one place. -/
structure Answers where
  /-- The time, in UTC, to the millisecond. -/
  now : String
  /-- An identifier given out once. -/
  uuid : String
deriving DecidableEq, Repr

/-- Answers for every place of a computation.  A place is reached by turns to the
    left (`false`) and to the right (`true`). -/
structure Supply where
  answersAt : List Bool → Answers

namespace Supply

/-- The answers where the supply stands. -/
def here (supply : Supply) : Answers := supply.answersAt []

/-- The half for the first part of a computation. -/
def left (supply : Supply) : Supply := ⟨fun place => supply.answersAt (false :: place)⟩

/-- The half for the rest of a computation. -/
def right (supply : Supply) : Supply := ⟨fun place => supply.answersAt (true :: place)⟩

def constant (answers : Answers) : Supply := ⟨fun _ => answers⟩

@[simp] theorem here_constant (a : Answers) : (constant a).here = a := rfl
@[simp] theorem left_constant (a : Answers) : (constant a).left = constant a := rfl
@[simp] theorem right_constant (a : Answers) : (constant a).right = constant a := rfl

end Supply
end FlowDocs
