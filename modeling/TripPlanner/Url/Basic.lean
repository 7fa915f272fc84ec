import TripPlanner.Url.Address
import TripPlanner.Url.Form

/-!
# URLs

A URL in its one form: all parts are kept as they are written, already percent encoded where they
need it. A path is either a list of segments, each written after a slash, or, where a scheme is
followed by neither a slash nor a host, a *bare* text that nothing can be joined to.

* `Url.text`: the writing of a URL.
* `Url.withPairs`: a URL with its query replaced by pairs and its fragment dropped.
* `Url.pairs`: the pairs that the query of a URL holds.
-/

namespace TripPlanner

namespace Url

open Text

/-- The host of a URL. -/
inductive Host where
  /-- A domain name, or the name of a host in a scheme of its own; it may be empty. -/
  | name (text : List Char)
  /-- An address of four octets. -/
  | ipv4 (address : Nat)
  /-- An address of eight groups. -/
  | ipv6 (groups : List Nat)
  deriving DecidableEq, Repr

/-- The writing of a host. -/
def Host.write : Host → List Char
  | .name text => text
  | .ipv4 address => Ipv4.write address
  | .ipv6 groups => Ipv6.write groups

/-- Who is asked: a host, and for whom and where. -/
structure Authority where
  user : List Char
  password : Option (List Char)
  host : Host
  /-- A port other than the usual one of the scheme. -/
  port : Option Nat
  deriving DecidableEq, Repr

/-- User name and password before a host. -/
def Authority.credentials (a : Authority) : List Char :=
  match a.password with
  | some password => a.user ++ ':' :: (password ++ ['@'])
  | none => if a.user.isEmpty then [] else a.user ++ ['@']

/-- The writing of an authority. -/
def Authority.write (a : Authority) : List Char :=
  a.credentials ++ a.host.write ++ match a.port with
    | some port => ':' :: digits port
    | none => []

/-- The path of a URL. -/
inductive Path where
  | bare (text : List Char)
  | segments (items : List (List Char))
  deriving DecidableEq, Repr

/-- The writing of a path. -/
def Path.write : Path → List Char
  | .bare text => text
  | .segments items => items.flatMap ('/' :: ·)

end Url

/-- A URL. -/
structure Url where
  scheme : List Char
  authority : Option Url.Authority
  path : Url.Path
  query : Option (List Char)
  fragment : Option (List Char)
  deriving DecidableEq, Repr

namespace Url

/-- What stands between scheme and path. A path whose first segment is empty would read as a host
where there is none, so it is kept apart by a dot. -/
def writeAuthority (u : Url) : List Char :=
  match u.authority, u.path with
  | some a, _ => '/' :: '/' :: a.write
  | none, .segments ([] :: _ :: _) => ['/', '.']
  | none, _ => []

/-- A part that may be missing, after its mark. -/
def writePart (mark : Char) : Option (List Char) → List Char
  | some text => mark :: text
  | none => []

/-- The writing of a URL. -/
def write (u : Url) : List Char :=
  u.scheme ++ ':' :: (u.writeAuthority ++ u.path.write ++ writePart '?' u.query ++
    writePart '#' u.fragment)

/-- The writing of a URL as a string. -/
def text (u : Url) : String := String.ofList u.write

/-- A path without the blanks at its end, where it is bare. -/
def Path.trimmed : Path → Path
  | .bare text => .bare (text.reverse.dropWhile (· = ' ')).reverse
  | .segments items => .segments items

/-- A URL with its query replaced by pairs and its fragment dropped. Blanks at the end of a bare
path are dropped with them, since nothing but a query or a fragment keeps them in place. -/
def withPairs (u : Url) (pairs : List (List Char × List Char)) : Url :=
  { u with path := u.path.trimmed, query := some (Form.write pairs), fragment := none }

/-- The pairs that the query of a URL holds. -/
def pairs (u : Url) : List (List Char × List Char) := Form.read (u.query.getD [])

end Url

end TripPlanner
