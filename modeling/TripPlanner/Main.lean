import Std.Time
import TripPlanner.CommandLine.Output

/-!
# The program

The outer layer of the command line: it reads the configuration file and the clock, writes what
`CommandLine.Ending` says, and ends with its exit code. The program opens no connection of its own,
so to it the routing server is silent.
-/

namespace TripPlanner

open CommandLine

/-- The octets of a file, if it can be read. -/
def octets? (file : String) : IO (Option (List UInt8)) := do
  try
    return some (← IO.FS.readBinFile file).toList
  catch _ =>
    return none

/-- The instant of a date and a time of day. -/
def instant? (t : Std.Time.PlainDateTime) : Option Instant := do
  let date ← Time.Date.of? t.date.year t.date.month.val.toNat t.date.day.val.toNat
  let second := t.time.toSeconds.val.toNat
  let nanos := t.time.nanosecond.val.toNat
  if h : second < 86400 ∧ nanos < 2000000000 then some ⟨date, ⟨second, h.1⟩, ⟨nanos, h.2⟩⟩ else none

/-- What the clock shows. -/
def clock : IO Instant := do
  let t ← Std.Time.Timestamp.now
  match instant? (.ofWallTime (t.toWallTime .zero)) with
  | some now => return now
  | none => throw (IO.userError "the clock shows no date of the calendar")

/-- The surroundings of the program, as far as its arguments need them. -/
def surroundings (arguments : List String) : IO Surroundings := do
  let content ← match Invocation.ofArguments arguments with
    | .ok ⟨some file, _⟩ => octets? file
    | _ => pure none
  return { file := fun _ => content, network := fun _ => .silence, now := ← clock }

end TripPlanner

/-- Carries out the arguments. -/
def main (arguments : List String) : IO UInt32 := do
  let ending := TripPlanner.CommandLine.Ending.ofArguments arguments
    (← TripPlanner.surroundings arguments)
  IO.print ending.outcome
  IO.eprint ending.remark
  return ending.exitCode.toUInt32
