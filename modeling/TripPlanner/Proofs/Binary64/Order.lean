import TripPlanner.Proofs.Binary64.Exact

/-!
# The order of numbers is the order of their values

Numbers are compared by their rank. Ranks count the finite numbers in increasing order, so what is
compared are values: a greater rank is worth more units (`units_lt_units`), and one finite number is
less than another exactly if its value is (`less_iff`, `atMost_iff`).

* `Binary64.value?`: the value of a finite number.
* `Binary64.Within`: a number that is finite and no more than a limit away from zero.
-/

namespace TripPlanner.Binary64

/-- The value of a finite number, in units. -/
def value? : Binary64 → Option Int
  | .finite negative rank => some (if negative then -(units rank : Int) else units rank)
  | .infinite _ => none
  | .nan => none

/-- A number is finite and no more than `limit` away from zero. -/
def Within (limit : Nat) (x : Binary64) : Prop :=
  ∃ value, x.value? = some value ∧ value.natAbs ≤ limit * one

theorem isSome_value? (x : Binary64) : x.value?.isSome = x.isFinite := by
  cases x with
  | finite negative rank => simp [value?, isFinite]
  | infinite negative => rfl
  | nan => rfl

theorem Within.isFinite {limit : Nat} {x : Binary64} (h : x.Within limit) : x.isFinite = true := by
  obtain ⟨value, hValue, -⟩ := h
  rw [← isSome_value?, hValue, Option.isSome_some]

theorem value?_negate (x : Binary64) : x.negate.value? = x.value?.map (-·) := by
  cases x with
  | finite negative rank => cases negative <;> simp [negate, value?]
  | infinite negative => rfl
  | nan => rfl

/-! ## Ranks -/

theorem units_lt_units {r s : Nat} (h : r < s) : units r < units s := by
  obtain ⟨m, i, hr, hUnits, hUpper, hLower⟩ := rank_parts r
  obtain ⟨n, j, hs, hUnits', hUpper', hLower'⟩ := rank_parts s
  have hPos := width_pos
  rw [hUnits, hUnits']
  rcases Nat.lt_trichotomy i j with hShift | rfl | hShift
  · -- With a greater shift even the least mantissa is worth more.
    have hWidth : width ≤ n := hLower'.resolve_left (by omega)
    calc m * 2 ^ i < 2 * width * 2 ^ i := Nat.mul_lt_mul_of_pos_right hUpper (Nat.two_pow_pos i)
      _ = width * 2 ^ (i + 1) := by ring
      _ ≤ width * 2 ^ j := Nat.mul_le_mul_left _ (Nat.pow_le_pow_right (by decide) hShift)
      _ ≤ n * 2 ^ j := Nat.mul_le_mul_right _ hWidth
  · exact Nat.mul_lt_mul_of_pos_right (by omega) (Nat.two_pow_pos i)
  · have hWidth : width ≤ m := hLower.resolve_left (by omega)
    have hRanks : (j + 1) * width ≤ i * width := Nat.mul_le_mul_right _ hShift
    rw [Nat.succ_mul] at hRanks
    omega

theorem units_strictMono : StrictMono units := fun _ _ => units_lt_units

theorem units_eq_zero_iff {r : Nat} : units r = 0 ↔ r = 0 :=
  ⟨units_eq_zero, fun h => by rw [h]; exact Nat.zero_mul _⟩

/-! ## Numbers -/

/-- One finite number is less than another exactly if its value is. -/
theorem less_iff {x y : Binary64} {a b : Int} (hx : x.value? = some a) (hy : y.value? = some b) :
    x.less y = true ↔ a < b := by
  cases x with
  | infinite negative => cases hx
  | nan => cases hx
  | finite negative r =>
    cases y with
    | infinite negative' => cases hy
    | nan => cases hy
    | finite negative' s =>
      cases hx
      cases hy
      have hLess : units r < units s ↔ r.val < s.val := units_strictMono.lt_iff_lt
      have hMore : units s < units r ↔ s.val < r.val := units_strictMono.lt_iff_lt
      have hr : units r = 0 ↔ r.val = 0 := units_eq_zero_iff
      have hs : units s = 0 ↔ s.val = 0 := units_eq_zero_iff
      simp only [less, place, decide_eq_true_eq]
      cases negative <;> cases negative' <;> simp only [if_true, Bool.false_eq_true, if_false]
      all_goals omega

theorem atMost_eq_not_less {x y : Binary64} {a b : Int} (hx : x.value? = some a)
    (hy : y.value? = some b) : x.atMost y = !y.less x := by
  cases x with
  | infinite negative => cases hx
  | nan => cases hx
  | finite negative r =>
    cases y with
    | infinite negative' => cases hy
    | nan => cases hy
    | finite negative' s => simp [atMost, less, place, ← decide_not]

theorem atMost_iff {x y : Binary64} {a b : Int} (hx : x.value? = some a) (hy : y.value? = some b) :
    x.atMost y = true ↔ a ≤ b := by
  rw [atMost_eq_not_less hx hy, Bool.not_eq_true', Bool.eq_false_iff, Ne, less_iff hy hx,
    Int.not_lt]

end TripPlanner.Binary64
