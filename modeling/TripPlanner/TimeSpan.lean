import TripPlanner.Text.Blank
import TripPlanner.Text.Digits
import TripPlanner.Word

/-!
# Time spans

A time span is written as `PT` and up to three amounts, of hours `H`, minutes `M` and seconds `S`
in that order, as in `PT1H30M`. It keeps the text it was written with: `PT120M` and `PT2H` last
equally long, and each stays as it is.

* `TimeSpan.ofText`: the time span that a text writes, or what is wrong with the text.
* `TimeSpan.ofMinutes`: a time span written as a single amount of minutes.
-/

namespace TripPlanner

namespace TimeSpan

open Text

/-- What can be wrong with the text of a time span. -/
inductive Fault where
  | noMark
  | noAmount
  | unknownDesignator (designator : Char)
  | noValue (designator : Char)
  | order
  | largeValue
  | tooLong
  | noDesignator
  deriving DecidableEq, Repr

/-- The wording of a fault. -/
def Fault.message : Fault → String
  | .noMark => "must start with 'PT'"
  | .noAmount => "no time components"
  | .unknownDesignator c => "unexpected designator '" ++ c.toString ++ "'"
  | .noValue c => "designator '" ++ c.toString ++ "' has no value"
  | .order => "designators must appear once, in H, M, S order"
  | .largeValue => "number too large to fit in target type"
  | .tooLong => "duration overflow"
  | .noDesignator => "trailing value without designator"

/-- The largest integer of sixty-four bits. -/
def largest : Nat := Word.values 63 - 1

/-- The longest time span in seconds: its milliseconds have to fit into sixty-four bits. -/
def longest : Nat := largest / 1000

/-- The seconds that one unit of a designator stands for. -/
def scale? : Char → Option Nat
  | 'H' => some 3600
  | 'M' => some 60
  | 'S' => some 1
  | _ => none

/-- The seconds of the amounts that are still to be read. `total` are the seconds so far, `ds` the
digits since the last designator, and every further designator has to stand for fewer seconds
than `bound`. -/
def amounts (total : Nat) (ds : List Char) (bound : Nat) : List Char → Except Fault Nat
  | [] =>
    if !ds.isEmpty then .error .noDesignator
    else if longest < total then .error .tooLong
    else .ok total
  | c :: rest =>
    if isDigit c then amounts total (ds ++ [c]) bound rest
    else match scale? c with
      | none => .error (.unknownDesignator c)
      | some scale =>
        if ds.isEmpty then .error (.noValue c)
        else if bound ≤ scale then .error .order
        else if largest < ofDigits ds then .error .largeValue
        else if largest < total + ofDigits ds * scale then .error .tooLong
        else amounts (total + ofDigits ds * scale) [] scale rest

/-- The seconds that a text without surrounding white space writes. -/
def lasting : List Char → Except Fault Nat
  | 'P' :: 'T' :: body => if body.isEmpty then .error .noAmount else amounts 0 [] 3601 body
  | _ => .error .noMark

end TimeSpan

/-- A length of time as somebody wrote it. -/
structure TimeSpan where
  text : String
  seconds : Nat
  written : TimeSpan.lasting text.toList = .ok seconds

namespace TimeSpan

open Text

/-- Time spans are equal when they are written equally. -/
theorem ext {a b : TimeSpan} (h : a.text = b.text) : a = b := by
  obtain ⟨ta, sa, ha⟩ := a
  obtain ⟨tb, sb, hb⟩ := b
  obtain rfl : ta = tb := h
  obtain rfl : sa = sb := Except.ok.inj (ha.symm.trans hb)
  rfl

instance : DecidableEq TimeSpan := fun a b =>
  if h : a.text = b.text then .isTrue (ext h) else .isFalse fun e => h (congrArg text e)

/-- The time span that a text writes, white space around it aside. -/
def ofText (s : String) : Except Fault TimeSpan :=
  match h : TimeSpan.lasting (trimmed s).toList with
  | .ok n => .ok ⟨trimmed s, n, h⟩
  | .error fault => .error fault

/-- Digits are collected until a designator comes. -/
theorem amounts_append (total bound : Nat) (ds more rest : List Char)
    (h : ∀ c ∈ more, isDigit c = true) :
    amounts total ds bound (more ++ rest) = amounts total (ds ++ more) bound rest := by
  induction more generalizing ds with
  | nil => simp
  | cons c more ih =>
    rw [List.cons_append, amounts, if_pos (h c (by simp)),
      ih _ fun d hd => h d (List.mem_cons_of_mem c hd)]
    simp

/-- The text of a number of minutes writes its seconds. -/
theorem lasting_minutes {n : Nat} (h : n * 60 ≤ longest) :
    TimeSpan.lasting ('P' :: 'T' :: (digits n ++ ['M'])) = .ok (n * 60) := by
  have small : longest ≤ largest := Nat.div_le_self _ _
  have hn : n ≤ n * 60 := Nat.le_mul_of_pos_right n (by decide)
  have notDigit : isDigit 'M' = false := by decide
  have nonempty : (digits n).isEmpty = false := by simp [digits_ne_nil]
  simp only [TimeSpan.lasting]
  rw [if_neg (by simp), amounts_append _ _ _ _ _ fun c => isDigit_of_mem_digits, List.nil_append,
    amounts, notDigit, if_neg (by decide)]
  simp only [scale?, ofDigits_digits]
  rw [if_neg (by simp [nonempty]), if_neg (by decide), if_neg (by omega), if_neg (by omega),
    amounts, if_neg (by decide), if_neg (by omega), Nat.zero_add]

/-- A number of minutes, written as such. -/
def ofMinutes (n : Nat) (h : n * 60 ≤ longest) : TimeSpan where
  text := String.ofList ('P' :: 'T' :: (digits n ++ ['M']))
  seconds := n * 60
  written := by rw [String.toList_ofList]; exact lasting_minutes h

end TimeSpan

end TripPlanner
