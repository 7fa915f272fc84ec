/-!
# UTF-8

A character is written as one to four octets. Reading never fails: where the octets are not the
writing of a character, the longest run of octets that could have begun one is replaced by a
single U+FFFD, and reading goes on after that run.
-/

namespace TripPlanner.Text.Utf8

/-- The octets of one character. -/
def encodeChar (c : Char) : List UInt8 :=
  let n := c.toNat
  if n < 0x80 then [.ofNat n]
  else if n < 0x800 then [.ofNat (0xC0 + n / 64), .ofNat (0x80 + n % 64)]
  else if n < 0x10000 then
    [.ofNat (0xE0 + n / 4096), .ofNat (0x80 + n / 64 % 64), .ofNat (0x80 + n % 64)]
  else
    [.ofNat (0xF0 + n / 262144), .ofNat (0x80 + n / 4096 % 64), .ofNat (0x80 + n / 64 % 64),
      .ofNat (0x80 + n % 64)]

/-- The octets of a text. -/
def encode (s : List Char) : List UInt8 := s.flatMap encodeChar

/-- The replacement for octets that write no character. -/
def replacement : Char := Char.ofNat 0xFFFD

/-- Whether an octet lies between two bounds. -/
def within (low high : Nat) (b : UInt8) : Bool := low ≤ b.toNat && b.toNat ≤ high

/-- The six bits that a continuation octet carries. -/
def tailBits (b : UInt8) : Nat := b.toNat - 0x80

/-- The last octet of a character whose octets so far carry `bits`; it must lie between the given
bounds. An octet that cannot be part of the character is left to be read anew. -/
def oneMore (bits low high : Nat) : List UInt8 → Char × List UInt8
  | b :: rest =>
    if within low high b then (Char.ofNat (bits * 64 + tailBits b), rest)
    else (replacement, b :: rest)
  | [] => (replacement, [])

/-- The last two octets of a character, the first of them between the given bounds. -/
def twoMore (bits low high : Nat) : List UInt8 → Char × List UInt8
  | b :: rest =>
    if within low high b then oneMore (bits * 64 + tailBits b) 0x80 0xBF rest
    else (replacement, b :: rest)
  | [] => (replacement, [])

/-- The last three octets of a character, the first of them between the given bounds. -/
def threeMore (bits low high : Nat) : List UInt8 → Char × List UInt8
  | b :: rest =>
    if within low high b then twoMore (bits * 64 + tailBits b) 0x80 0xBF rest
    else (replacement, b :: rest)
  | [] => (replacement, [])

/-- The character that the octet `a` and those after it write, and the octets left. -/
def step (a : UInt8) (rest : List UInt8) : Char × List UInt8 :=
  let n := a.toNat
  if n < 0x80 then (Char.ofNat n, rest)
  else if n < 0xC2 then (replacement, rest)
  else if n < 0xE0 then oneMore (n - 0xC0) 0x80 0xBF rest
  else if n = 0xE0 then twoMore 0 0xA0 0xBF rest
  else if n = 0xED then twoMore 0xD 0x80 0x9F rest
  else if n < 0xF0 then twoMore (n - 0xE0) 0x80 0xBF rest
  else if n = 0xF0 then threeMore 0 0x90 0xBF rest
  else if n < 0xF4 then threeMore (n - 0xF0) 0x80 0xBF rest
  else if n = 0xF4 then threeMore 4 0x80 0x8F rest
  else (replacement, rest)

theorem length_oneMore (bits low high : Nat) (rest : List UInt8) :
    (oneMore bits low high rest).2.length ≤ rest.length := by
  unfold oneMore
  split
  · split <;> simp
  · simp

theorem length_twoMore (bits low high : Nat) (rest : List UInt8) :
    (twoMore bits low high rest).2.length ≤ rest.length := by
  unfold twoMore
  split
  · split
    · exact Nat.le_trans (length_oneMore _ _ _ _) (by simp)
    · simp
  · simp

theorem length_threeMore (bits low high : Nat) (rest : List UInt8) :
    (threeMore bits low high rest).2.length ≤ rest.length := by
  unfold threeMore
  split
  · split
    · exact Nat.le_trans (length_twoMore _ _ _ _) (by simp)
    · simp
  · simp

/-- Reading a character leaves no more octets than stood after its first one. -/
theorem length_step (a : UInt8) (rest : List UInt8) : (step a rest).2.length ≤ rest.length := by
  have one := length_oneMore
  have two := length_twoMore
  have three := length_threeMore
  unfold step
  simp only [apply_ite (fun r : Char × List UInt8 => r.2.length)]
  grind

/-- The text that the octets write, with replacements where they write none. -/
def decode : List UInt8 → List Char
  | [] => []
  | a :: rest => (step a rest).1 :: decode (step a rest).2
termination_by octets => octets.length
decreasing_by
  have := length_step a rest
  simp only [List.length_cons]
  omega

end TripPlanner.Text.Utf8
