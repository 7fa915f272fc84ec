import TripPlanner.Binary64.Decimal
import TripPlanner.Text.Digits

/-!
# Numbers as text

A finite number is laid out from its shortest decimal. Two layouts are in use: `Layout.plain`, in
links and messages, never writes an exponent; `Layout.document`, in JSON, writes one for large and
small numbers and marks every number as one that may have a fraction.
-/

namespace TripPlanner

/-- The decisions of a layout. -/
structure Layout where
  /-- Which exponents of the leading digit are written without an exponent. -/
  positional : Int → Bool
  /-- Whether an integral number without exponent ends in `.0`. -/
  pointZero : Bool
  /-- Which of two equally near decimals is written. -/
  tie : Binary64.Tie

namespace Layout

open Text

/-- Links and messages: all digits, and a point only before a fraction. -/
def plain : Layout where
  positional := fun _ => true
  pointZero := false
  tie := .up

/-- JSON: positional from `1e-5` up to below `1e16`. -/
def document : Layout where
  positional := fun e => -5 ≤ e && e < 16
  pointZero := true
  tie := .even

/-- A decimal without exponent: the point stands after `point` digits. -/
def positionally (layout : Layout) (ds : List Char) (point : Int) : List Char :=
  if point ≤ 0 then '0' :: '.' :: (List.replicate (-point).toNat '0' ++ ds)
  else if point < ds.length then ds.take point.toNat ++ '.' :: ds.drop point.toNat
  else
    ds ++ List.replicate (point.toNat - ds.length) '0' ++
      if layout.pointZero then ['.', '0'] else []

/-- A decimal with an exponent that always has a sign where it is positive. -/
def scientifically (ds : List Char) (e : Int) : List Char :=
  let mantissa := match ds with
    | d :: rest@(_ :: _) => d :: '.' :: rest
    | _ => ds
  mantissa ++ 'e' :: (if 0 ≤ e then ['+'] else []) ++ integer e

/-- The text of a decimal. -/
def decimal (layout : Layout) (d : Decimal) : List Char :=
  let ds := digits d.digits
  let point := ds.length + d.exponent
  if layout.positional (point - 1) then layout.positionally ds point
  else scientifically ds (point - 1)

/-- The text of a number. -/
def number (layout : Layout) : Binary64 → List Char
  | .finite negative rank =>
    (if negative then ['-'] else []) ++ layout.decimal (Binary64.shortest layout.tie rank)
  | .infinite negative => (if negative then ['-'] else []) ++ ['i', 'n', 'f']
  | .nan => ['N', 'a', 'N']

end Layout

/-- The text of a number in links and messages. -/
def Binary64.display (x : Binary64) : String := String.ofList (Layout.plain.number x)

end TripPlanner
