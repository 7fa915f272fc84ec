import TripPlanner.Proofs.Text.Splitting
import TripPlanner.Text.Blank
import TripPlanner.Text.Digits
import Mathlib.Algebra.Order.Ring.Nat
import Mathlib.Data.List.TakeDrop
import Mathlib.Tactic.Ring

/-!
# Numerals inside texts

A numeral counts its digits by place (`ofDigits_append`), so zeros before it do not matter and
zeros after it are powers of ten. It is cut out of a text up to the first character that is no
digit (`spanDigits_append`).
-/

namespace TripPlanner.Text

/-! ## Digits -/

theorem isDigit_iff {c : Char} : isDigit c = true ↔ 48 ≤ c.toNat ∧ c.toNat ≤ 57 := by
  rw [isDigit_eq, Char.isDigit, Bool.and_eq_true, decide_eq_true_eq, decide_eq_true_eq]
  exact Iff.rfl

theorem isBlank_of_isDigit {c : Char} (h : isDigit c = true) : isBlank c = false := by
  have hBounds := isDigit_iff.mp h
  simp only [isBlank]
  grind

theorem isDigit_of_mem_replicate {c : Char} {n : Nat} (h : c ∈ List.replicate n '0') :
    isDigit c = true := by
  rw [List.eq_of_mem_replicate h]
  rfl

theorem isDigit_of_mem_padded {c : Char} {width n : Nat} (h : c ∈ padded width n) :
    isDigit c = true := by
  rcases List.mem_append.mp h with h | h
  · exact isDigit_of_mem_replicate h
  · exact isDigit_of_mem_digits h

/-- A numeral with leading zeros has its width where it fits. -/
theorem length_padded {width n : Nat} (hWidth : 0 < width) (h : n < 10 ^ width) :
    (padded width n).length = width := by
  have hLength : (digits n).length ≤ width :=
    (Nat.length_toDigits_le_iff (by decide) hWidth).mpr h
  rw [padded, List.length_append, List.length_replicate]
  omega

theorem padded_ne_nil (width n : Nat) : padded width n ≠ [] :=
  List.append_ne_nil_of_right_ne_nil _ (digits_ne_nil n)

/-! ## Values -/

theorem foldl_digits (s : List Char) (n : Nat) :
    s.foldl (fun n c => n * 10 + digitValue c) n = n * 10 ^ s.length + ofDigits s := by
  induction s generalizing n with
  | nil => simp [ofDigits]
  | cons c s ih =>
    have hCons : ofDigits (c :: s) = digitValue c * 10 ^ s.length + ofDigits s := by
      rw [ofDigits, List.foldl_cons, ih, Nat.zero_mul, Nat.zero_add]
    rw [List.foldl_cons, ih, hCons, List.length_cons, pow_succ]
    ring

theorem ofDigits_append (s t : List Char) :
    ofDigits (s ++ t) = ofDigits s * 10 ^ t.length + ofDigits t := by
  rw [ofDigits, List.foldl_append, foldl_digits, ← ofDigits]

theorem ofDigits_zeros (n : Nat) : ofDigits (List.replicate n '0') = 0 := by
  induction n with
  | zero => rfl
  | succ n ih =>
    have hZero : ofDigits ['0'] = 0 := rfl
    rw [List.replicate_succ, ← List.singleton_append, ofDigits_append, ih, hZero, Nat.zero_mul]

theorem ofDigits_zeros_append (n : Nat) (s : List Char) :
    ofDigits (List.replicate n '0' ++ s) = ofDigits s := by
  rw [ofDigits_append, ofDigits_zeros, Nat.zero_mul, Nat.zero_add]

theorem ofDigits_append_zeros (s : List Char) (n : Nat) :
    ofDigits (s ++ List.replicate n '0') = ofDigits s * 10 ^ n := by
  rw [ofDigits_append, ofDigits_zeros, List.length_replicate, Nat.add_zero]

theorem ofDigits_padded (width n : Nat) : ofDigits (padded width n) = n := by
  rw [padded, ofDigits_zeros_append, ofDigits_digits]

/-- A run of digits writes a number of no more digits. -/
theorem ofDigits_lt {s : List Char} (h : ∀ c ∈ s, isDigit c = true) :
    ofDigits s < 10 ^ s.length := by
  induction s with
  | nil => exact Nat.one_pos
  | cons c s ih =>
    have hBounds := isDigit_iff.mp (h c List.mem_cons_self)
    have hFirst : ofDigits [c] = c.toNat - 48 := by
      rw [ofDigits, List.foldl_cons, List.foldl_nil, Nat.zero_mul, Nat.zero_add]
      rfl
    have hRest := ih fun d hMem => h d (List.mem_cons_of_mem _ hMem)
    calc ofDigits (c :: s)
        = (c.toNat - 48) * 10 ^ s.length + ofDigits s := by
          rw [← List.singleton_append, ofDigits_append, hFirst]
      _ < 9 * 10 ^ s.length + 10 ^ s.length :=
          Nat.add_lt_add_of_le_of_lt (Nat.mul_le_mul_right _ (by omega)) hRest
      _ = 10 ^ (c :: s).length := by
          rw [List.length_cons, pow_succ]
          ring

/-! ## Stretches of digits -/

/-- A text that does not go on with a digit. -/
def StopsDigits (s : List Char) : Prop := ∀ c ∈ s.head?, isDigit c = false

theorem stopsDigits_nil : StopsDigits [] := fun _ h => by simp at h

theorem stopsDigits_cons {c : Char} (h : isDigit c = false) (s : List Char) :
    StopsDigits (c :: s) := fun d hd => by
  rw [List.head?_cons, Option.mem_some_iff] at hd
  exact hd ▸ h

theorem spanDigits_append {s rest : List Char} (hDigits : ∀ c ∈ s, isDigit c = true)
    (hRest : StopsDigits rest) : spanDigits (s ++ rest) = (s, rest) := by
  rw [spanDigits, List.span_eq_takeWhile_dropWhile, takeWhile_of_ends hDigits hRest,
    dropWhile_of_ends hDigits hRest]

end TripPlanner.Text
