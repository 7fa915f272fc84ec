/-!
# Splitting texts

A text is split at every character of a kind into the stretches between those characters. There is
always one stretch more than there are such characters, and a stretch may be empty.
-/

namespace TripPlanner.Text

/-- The stretches of a text between its separators. -/
def split (isSeparator : Char → Bool) : List Char → List (List Char)
  | [] => [[]]
  | c :: rest =>
    if isSeparator c then [] :: split isSeparator rest
    else match split isSeparator rest with
      | [] => [[c]]
      | first :: others => (c :: first) :: others

/-- The stretches of a text between the occurrences of a character. -/
def splitAt (separator : Char) (s : List Char) : List (List Char) := split (· == separator) s

end TripPlanner.Text
