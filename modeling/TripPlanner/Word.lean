/-!
# Bounds of words

Where numbers are bounded, they are bounded by what words of a certain number of bits hold. Signed
words reach as far below zero as unsigned words of one bit less have values.

* `Word.fitsSigned`, `Word.fitsUnsigned`: whether a number has room in a word.
-/

namespace TripPlanner.Word

/-- The number of values of a word with so many bits. -/
def values (bits : Nat) : Nat := Nat.pow 2 bits

/-- Whether a number has room in an unsigned word. -/
def fitsUnsigned (bits : Nat) (i : Int) : Bool := 0 ≤ i && i < values bits

/-- Whether a number has room in a signed word. -/
def fitsSigned (bits : Nat) (i : Int) : Bool :=
  -(values (bits - 1) : Int) ≤ i && i < values (bits - 1)

end TripPlanner.Word
