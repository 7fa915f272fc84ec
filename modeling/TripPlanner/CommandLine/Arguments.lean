/-!
# Arguments

Arguments are read from left to right. An argument that starts with two hyphens names a parameter,
and one that starts with a single hyphen holds letters; everything else is a word. A parameter that
takes a value has it after an equals sign, or as the word that follows; so a value that starts with
a hyphen has to be attached. After two hyphens alone, everything is a word.

A value that stands in an argument of its own is looked at only when the next parameter, or the
end, has been reached: a surplus word or an unknown parameter before that is found first.

* `Gathered.take`: one argument is read.
* `Gathered.settled`: the end is reached.
-/

namespace TripPlanner.CommandLine

/-- Why arguments are not carried out. -/
inductive Usage where
  /-- Help is asked for. -/
  | help
  /-- The version is asked for. -/
  | version
  /-- There are no arguments at all. -/
  | nothing
  | noCommand
  | unknownCommand
  | unknownArgument
  /-- A word that has to be given is missing. -/
  | missingWord
  /-- A parameter that takes a value has none. -/
  | missingValue
  /-- A parameter that takes no value has one. -/
  | surplusValue
  /-- A parameter is given twice. -/
  | repeated
  /-- A value is not of the kind that its parameter takes. -/
  | unreadable
  deriving DecidableEq, Repr

/-- The wording of a reason. -/
def Usage.message : Usage → String
  | .help =>
    "plan: requests routes for a query\nlink: writes the link of a query\n" ++
      "decode: writes what a link says"
  | .version => "trip-planner 0.1.0"
  | .nothing | .noCommand => "a command is missing: plan, link or decode"
  | .unknownCommand => "there is no such command"
  | .unknownArgument => "an argument is not understood"
  | .missingWord => "the link is missing"
  | .missingValue => "a parameter has no value"
  | .surplusValue => "a parameter takes no value"
  | .repeated => "a parameter is given twice"
  | .unreadable => "a value cannot be read"

/-- Whether the user has got what was asked for. -/
def Usage.isRequested (u : Usage) : Bool := u = .help || u = .version

/-- What a parameter means for the record that arguments are gathered in. -/
inductive Meaning (α : Type) where
  /-- The parameter stands by itself. -/
  | flag (set : α → α)
  /-- The parameter takes a value. -/
  | value (read : String → Option (α → α))
  | help
  | version

/-- The parameters that are understood, by name. -/
abbrev Parameters (α : Type) := List (String × Meaning α)

/-- The parameters that are understood everywhere. -/
def everywhere {α : Type} : Parameters α := [("help", .help), ("version", .version)]

/-- What an argument looks like. -/
inductive Look where
  /-- Two hyphens alone. -/
  | separator
  /-- A parameter, with the value that is attached to it. -/
  | parameter (name : String) (value : Option String)
  /-- Letters, of which there is a first. -/
  | letters (first : Char)
  | word
  deriving DecidableEq, Repr

/-- What an argument looks like by its characters. -/
def Look.ofChars : List Char → Look
  | ['-', '-'] => .separator
  | '-' :: '-' :: rest =>
    let name := String.ofList (rest.takeWhile (· ≠ '='))
    match rest.dropWhile (· ≠ '=') with
    | [] => .parameter name none
    | _ :: value => .parameter name (some (String.ofList value))
  | '-' :: c :: _ => .letters c
  | _ => .word

/-- A parameter whose value has not been looked at. -/
structure Pending (α : Type) where
  name : String
  read : String → Option (α → α)
  /-- The value, once it has been given. -/
  value : Option String

/-- What has been read of some arguments. -/
structure Gathered (α : Type) where
  record : α
  /-- The parameters that have been given so far. -/
  given : List String
  pending : Option (Pending α)
  /-- The words, in order. -/
  words : List String
  /-- Whether only words are left. -/
  onlyWords : Bool

namespace Gathered

variable {α : Type}

/-- Nothing has been read yet. -/
def start (record : α) : Gathered α := ⟨record, [], none, [], false⟩

/-- Whether the next word is the value of a parameter. -/
def awaitsValue (g : Gathered α) : Bool :=
  match g.pending with
  | some p => p.value.isNone && !g.onlyWords
  | none => false

/-- A parameter is noted as given. -/
def note (g : Gathered α) (name : String) : Except Usage (Gathered α) :=
  if g.given.contains name then .error .repeated else .ok { g with given := g.given ++ [name] }

/-- A value is handed to its parameter. -/
def assign (g : Gathered α) (name : String) (read : String → Option (α → α)) (value : String) :
    Except Usage (Gathered α) := do
  let g ← g.note name
  match read value with
  | some set => .ok { g with record := set g.record }
  | none => .error .unreadable

/-- The value that has not been looked at is handed to its parameter. -/
def settled (g : Gathered α) : Except Usage (Gathered α) :=
  match g.pending with
  | none => .ok g
  | some p =>
    match p.value with
    | none => .error .missingValue
    | some value => { g with pending := none }.assign p.name p.read value

/-- A parameter that is understood is read. -/
def mean (g : Gathered α) (name : String) (value : Option String) :
    Meaning α → Except Usage (Gathered α)
  | .value read => do
    let g ← g.settled
    match value with
    | some value => g.assign name read value
    | none => .ok { g with pending := some ⟨name, read, none⟩ }
  | meaning => do
    if value.isSome then throw .surplusValue
    let g ← g.settled
    match meaning with
    | .help => throw .help
    | .version => throw .version
    | .flag set =>
      let g ← g.note name
      return { g with record := set g.record }
    | .value _ => return g

/-- A word is read that is no value of a parameter; only so many are taken. -/
def word (g : Gathered α) (limit : Nat) (s : String) : Except Usage (Gathered α) :=
  if g.words.length < limit then do
    let g ← g.settled
    return { g with words := g.words ++ [s] }
  else .error .unknownArgument

/-- A word is read. -/
def wordOrValue (g : Gathered α) (limit : Nat) (s : String) : Except Usage (Gathered α) :=
  match g.pending with
  | some p =>
    if g.awaitsValue then .ok { g with pending := some { p with value := some s } }
    else g.word limit s
  | none => g.word limit s

/-- The meaning of a letter. -/
def letter? (c : Char) : Option (Meaning α) :=
  if c = 'h' then some .help else if c = 'V' then some .version else none

/-- One argument is read, of parameters and so many words. -/
def take (ps : Parameters α) (limit : Nat) (g : Gathered α) (s : String) :
    Except Usage (Gathered α) :=
  if g.onlyWords then g.word limit s
  else match Look.ofChars s.toList with
    | .separator => .ok { g with onlyWords := true }
    | .parameter name value =>
      match (ps ++ everywhere).lookup name with
      | some meaning => g.mean name value meaning
      | none => .error .unknownArgument
    | .letters c =>
      match letter? c with
      | some meaning => g.mean (String.singleton c) none meaning
      | none => .error .unknownArgument
    | .word => g.wordOrValue limit s

/-- All arguments are read. -/
def takeAll (ps : Parameters α) (limit : Nat) (g : Gathered α) (arguments : List String) :
    Except Usage (Gathered α) := do
  (← arguments.foldlM (take ps limit) g).settled

end Gathered

end TripPlanner.CommandLine
