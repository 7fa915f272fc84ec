import TripPlanner.Text.Utf8
import Mathlib.Tactic.SplitIfs

/-!
# UTF-8 reads back

The octets that write a character are read as that character, whatever follows them
(`decode_encodeChar`), so the octets of a text are read as that text (`decode_encode`).
-/

namespace TripPlanner.Text.Utf8

/-! ## Continuation octets -/

/-- The continuation octet that carries six bits. -/
def tail (x : Nat) : UInt8 := .ofNat (0x80 + x)

theorem toNat_octet {n : Nat} (h : n < 256) : (UInt8.ofNat n).toNat = n :=
  UInt8.toNat_ofNat_of_lt' h

theorem toNat_tail {x : Nat} (h : x < 64) : (tail x).toNat = 0x80 + x := toNat_octet (by omega)

section

variable {bits low high x y z : Nat} {rest : List UInt8}

theorem within_tail (hLow : low ≤ 0x80 + x) (hHigh : 0x80 + x ≤ high) (hx : x < 64) :
    within low high (tail x) = true := by
  rw [within, toNat_tail hx, decide_eq_true hLow, decide_eq_true hHigh, Bool.and_self]

theorem tailBits_tail (hx : x < 64) : tailBits (tail x) = x := by
  have hTail := toNat_tail hx
  unfold tailBits
  omega

theorem oneMore_tail (hx : x < 64) :
    oneMore bits 0x80 0xBF (tail x :: rest) = (Char.ofNat (bits * 64 + x), rest) := by
  rw [oneMore, if_pos (within_tail (by omega) (by omega) hx), tailBits_tail hx]

theorem twoMore_tails (hLow : low ≤ 0x80 + x) (hHigh : 0x80 + x ≤ high) (hx : x < 64)
    (hy : y < 64) :
    twoMore bits low high (tail x :: tail y :: rest) =
      (Char.ofNat ((bits * 64 + x) * 64 + y), rest) := by
  rw [twoMore, if_pos (within_tail hLow hHigh hx), tailBits_tail hx, oneMore_tail hy]

theorem threeMore_tails (hLow : low ≤ 0x80 + x) (hHigh : 0x80 + x ≤ high) (hx : x < 64)
    (hy : y < 64) (hz : z < 64) :
    threeMore bits low high (tail x :: tail y :: tail z :: rest) =
      (Char.ofNat (((bits * 64 + x) * 64 + y) * 64 + z), rest) := by
  rw [threeMore, if_pos (within_tail hLow hHigh hx), tailBits_tail hx,
    twoMore_tails (by omega) (by omega) hy hz]

end

/-! ## Characters -/

variable {n : Nat}

theorem step_one (rest : List UInt8) (h : n < 0x80) :
    step (.ofNat n) rest = (Char.ofNat n, rest) := by
  rw [step, toNat_octet (by omega), if_pos h]

theorem step_two (rest : List UInt8) (hLow : 0x80 ≤ n) (hHigh : n < 0x800) :
    step (.ofNat (0xC0 + n / 64)) (tail (n % 64) :: rest) = (Char.ofNat n, rest) := by
  rw [step, toNat_octet (by omega), if_neg (by omega), if_neg (by omega), if_pos (by omega),
    oneMore_tail (by omega)]
  congr 2
  omega

/-- Three octets leave out the surrogates, which the octet `ED` would begin. -/
theorem step_three (rest : List UInt8) (hLow : 0x800 ≤ n) (hHigh : n < 0x10000)
    (hValid : n < 0xD800 ∨ 0xDFFF < n) :
    step (.ofNat (0xE0 + n / 4096)) (tail (n / 64 % 64) :: tail (n % 64) :: rest) =
      (Char.ofNat n, rest) := by
  have hTails : ∀ {bits low high : Nat}, bits = n / 4096 → low ≤ 0x80 + n / 64 % 64 →
      0x80 + n / 64 % 64 ≤ high →
      twoMore bits low high (tail (n / 64 % 64) :: tail (n % 64) :: rest) =
        (Char.ofNat n, rest) := by
    intro bits low high hBits hLower hUpper
    rw [twoMore_tails hLower hUpper (by omega) (by omega)]
    congr 2
    omega
  rw [step, toNat_octet (by omega), if_neg (by omega), if_neg (by omega), if_neg (by omega)]
  split_ifs
  all_goals first | omega | exact hTails (by omega) (by omega) (by omega)

theorem step_four (rest : List UInt8) (hLow : 0x10000 ≤ n) (hHigh : n < 0x110000) :
    step (.ofNat (0xF0 + n / 262144))
        (tail (n / 4096 % 64) :: tail (n / 64 % 64) :: tail (n % 64) :: rest) =
      (Char.ofNat n, rest) := by
  have hTails : ∀ {bits low high : Nat}, bits = n / 262144 → low ≤ 0x80 + n / 4096 % 64 →
      0x80 + n / 4096 % 64 ≤ high →
      threeMore bits low high
          (tail (n / 4096 % 64) :: tail (n / 64 % 64) :: tail (n % 64) :: rest) =
        (Char.ofNat n, rest) := by
    intro bits low high hBits hLower hUpper
    rw [threeMore_tails hLower hUpper (by omega) (by omega) (by omega)]
    congr 2
    omega
  rw [step, toNat_octet (by omega), if_neg (by omega), if_neg (by omega), if_neg (by omega),
    if_neg (by omega), if_neg (by omega), if_neg (by omega)]
  split_ifs
  all_goals first | omega | exact hTails (by omega) (by omega) (by omega)

theorem decode_cons {a : UInt8} {rest rest' : List UInt8} {c : Char}
    (h : step a rest = (c, rest')) : decode (a :: rest) = c :: decode rest' := by
  rw [decode, h]

/-- The octets of a character are read as that character. -/
theorem decode_encodeChar (c : Char) (rest : List UInt8) :
    decode (encodeChar c ++ rest) = c :: decode rest := by
  -- The numbers of characters leave out the surrogates.
  have hValid : c.toNat < 0xD800 ∨ 0xDFFF < c.toNat ∧ c.toNat < 0x110000 := c.valid
  rw [encodeChar]
  split_ifs with hOne hTwo hThree
  · rw [List.singleton_append, decode_cons (step_one rest hOne), Char.ofNat_toNat]
  · exact (decode_cons (step_two rest (by omega) hTwo)).trans (by rw [Char.ofNat_toNat])
  · exact (decode_cons (step_three rest (by omega) hThree (by omega))).trans
      (by rw [Char.ofNat_toNat])
  · exact (decode_cons (step_four rest (by omega) (by omega))).trans (by rw [Char.ofNat_toNat])

/-- The octets of a text are read as that text. -/
theorem decode_encode (s : List Char) : decode (encode s) = s := by
  induction s with
  | nil => simp [encode, decode]
  | cons c s ih => rw [encode, List.flatMap_cons, decode_encodeChar, ← encode, ih]

end TripPlanner.Text.Utf8
