/-
  FlowDocs/Identifier.lean
  ========================
  **Identifiers that are given out once.**

  An identifier is 122 bits written in hexadecimal groups, with the version 4 and
  the variant in their places.  One random seed is enough for a whole computation:
  every place of it mixes its own way into the seed.
-/
import FlowDocs.Answers

namespace FlowDocs

namespace Identifier

/-- The last hexadecimal digits of a number. -/
def hexDigits (count n : Nat) : String :=
  let digits := Nat.toDigits 16 (n % (1 <<< (4 * count)))
  String.ofList (List.replicate (count - digits.length) '0' ++ digits)

def text (bits : Nat) : String :=
  let variant := 8 + (bits >>> 120) % 4
  hexDigits 8 (bits >>> 88) ++ "-" ++ hexDigits 4 (bits >>> 72) ++ "-4" ++
    hexDigits 3 (bits >>> 60) ++ "-" ++ hexDigits 1 variant ++ hexDigits 3 (bits >>> 48) ++
    "-" ++ hexDigits 12 bits

/-- Mix one turn into the bits so far.  The factor is odd, so that no two numbers
    below `2 ^ 128` become one. -/
def mix (bits : Nat) (turn : Bool) : Nat :=
  (bits + if turn then 2 else 1) * 0x9E3779B97F4A7C15F39CC0605CEDC835 % (1 <<< 128)

def bitsAt (seed : Nat) (place : List Bool) : Nat := place.foldl mix (seed % (1 <<< 128))

end Identifier

/-- A supply that knows one time and draws every identifier from a seed. -/
def Supply.ofSeed (now : String) (seed : Nat) : Supply :=
  ⟨fun place => ⟨now, Identifier.text (Identifier.bitsAt seed place)⟩⟩

end FlowDocs
