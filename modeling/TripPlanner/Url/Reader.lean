import TripPlanner.Url.Basic
import TripPlanner.Url.Domain

/-!
# Reading URLs

A URL is read from its start: a scheme up to a colon, an authority after two slashes, a path, a
query after a question mark, and a fragment after a number sign. A text without a scheme is read
relative to another URL, from which it takes the parts that it does not name.

A few schemes are *special*: their URLs always have an authority and a path, backslashes count as
slashes in them, and the number of slashes before the authority does not matter. Among these the
scheme `file` has rules of its own for hosts and for drive letters.

* `Url.ofText`: the URL that a text writes, or what is wrong with the text.
* `Url.join`: the URL that a text writes relative to another.
-/

namespace TripPlanner.Url

open Text

/-- What can be wrong with the text of a URL. -/
inductive Fault where
  | emptyHost
  | invalidDomain
  | invalidPort
  | invalidIpv4
  | invalidIpv6
  | invalidHostCharacter
  | noBase
  | bareBase
  deriving DecidableEq, Repr

/-- The wording of a fault. -/
def Fault.message : Fault → String
  | .emptyHost => "empty host"
  | .invalidDomain => "invalid international domain name"
  | .invalidPort => "invalid port number"
  | .invalidIpv4 => "invalid IPv4 address"
  | .invalidIpv6 => "invalid IPv6 address"
  | .invalidHostCharacter => "invalid domain character"
  | .noBase => "relative URL without a base"
  | .bareBase => "relative URL with a cannot-be-a-base base"

/-- The kinds of schemes. -/
inductive SchemeKind where
  | file
  | special
  | plain
  deriving DecidableEq, Repr

/-- The usual ports of the special schemes. -/
def usualPorts : List (String × Nat) :=
  [("http", 80), ("https", 443), ("ws", 80), ("wss", 443), ("ftp", 21)]

/-- The usual port of a scheme. -/
def usualPort? (scheme : List Char) : Option Nat := usualPorts.lookup (String.ofList scheme)

/-- The kind of a scheme. -/
def kindOf (scheme : List Char) : SchemeKind :=
  if scheme = "file".toList then .file
  else if (usualPort? scheme).isSome then .special
  else .plain

/-- Whether a character separates the parts of a path. -/
def SchemeKind.isSlash (kind : SchemeKind) (c : Char) : Bool :=
  c == '/' || (c == '\\' && kind != .plain)

/-- Whether a character ends the path. -/
def endsPath (c : Char) : Bool := c == '?' || c == '#'

/-! ## Drive letters -/

/-- Whether a character is an ASCII letter. -/
def isLetter (c : Char) : Bool := ('a' ≤ c && c ≤ 'z') || ('A' ≤ c && c ≤ 'Z')

/-- A letter followed by a colon or a bar. -/
def isDrive : List Char → Bool
  | [a, b] => isLetter a && (b == ':' || b == '|')
  | _ => false

/-- A letter followed by a colon. -/
def isProperDrive : List Char → Bool
  | [a, b] => isLetter a && b == ':'
  | _ => false

/-- Whether a text starts with a segment that is a drive letter. -/
def startsWithDrive (s : List Char) : Bool :=
  isDrive (s.take 2) && match s.drop 2 with
    | [] => true
    | c :: _ => c == '/' || c == '\\' || endsPath c

/-! ## Paths -/

/-- Whether a segment stands for the folder it is in. -/
def isDot (segment : List Char) : Bool :=
  [".", "%2e"].contains (String.ofList (segment.map Char.toLower))

/-- Whether a segment stands for the folder above. -/
def isDoubleDot (segment : List Char) : Bool :=
  ["..", ".%2e", "%2e.", "%2e%2e"].contains (String.ofList (segment.map Char.toLower))

/-- The segments without the last one, which stays if it is a drive letter. -/
def parent (segments : List (List Char)) : List (List Char) :=
  match segments.getLast? with
  | some last => if isDrive last then segments else segments.dropLast
  | none => []

/-- A segment in the place where it stands: a drive letter at the start of a path is followed by a
colon. -/
def place (kind : SchemeKind) (before : List (List Char)) (segment : List Char) : List Char :=
  match kind, before, segment with
  | .file, [], [a, b] => if isDrive [a, b] then [a, ':'] else segment
  | _, _, _ => segment

/-- Further segments of a path, of which the last one has no slash after it. -/
def walk (kind : SchemeKind) (before : List (List Char)) : List (List Char) → List (List Char)
  | [] => before
  | [last] =>
    if isDoubleDot last then parent before ++ [[]]
    else if isDot last then before ++ [[]]
    else before ++ [place kind before last]
  | segment :: rest =>
    if isDoubleDot segment then walk kind (parent before) rest
    else if isDot segment then walk kind before rest
    else walk kind (before ++ [place kind before segment]) rest

/-- The segments of a text whose first slash has been read, going on from some segments. -/
def segmentsFrom (kind : SchemeKind) (before : List (List Char)) (s : List Char) :
    List (List Char) :=
  walk kind before ((split kind.isSlash s).map (Percent.encode Percent.inPath))

/-- The path of a text whose first slash has been read, going on from some segments. Files do not
have empty segments at the start of their paths. -/
def follow (kind : SchemeKind) (before : List (List Char)) (s : List Char) : Path :=
  let segments := segmentsFrom kind before s
  if kind = .file then
    match segments.dropWhile (·.isEmpty) with
    | [] => .segments [[]]
    | rest => .segments rest
  else .segments segments

/-- The text after a slash, if it starts with one. -/
def afterSlash (kind : SchemeKind) (s : List Char) : List Char :=
  match s with
  | c :: rest => if kind.isSlash c then rest else s
  | [] => []

/-! ## Hosts -/

/-- The address in brackets that a host writes. -/
def bracketed (s : List Char) : Except Fault Host :=
  if s.getLast? = some ']' then
    match Ipv6.read? s.tail.dropLast with
    | some groups => .ok (.ipv6 groups)
    | none => .error .invalidIpv6
  else .error .invalidIpv6

/-- The host of a special scheme. -/
def specialHost (s : List Char) : Except Fault Host :=
  if s.head? = some '[' then bracketed s
  else match Domain.toAscii? (Percent.decode s) with
    | none => .error .invalidDomain
    | some [] => .error .emptyHost
    | some name =>
      if Ipv4.isNumeric name then
        match Ipv4.read? name with
        | some address => .ok (.ipv4 address)
        | none => .error .invalidIpv4
      else .ok (.name name)

/-- The host of any other scheme. -/
def plainHost (s : List Char) : Except Fault Host :=
  if s.head? = some '[' then bracketed s
  else if s.any (fun c => "\x00\t\n\r #/:<>?@[\\]^|".toList.contains c) then
    .error .invalidHostCharacter
  else .ok (.name (Percent.encode (fun c => Percent.isPrintable c) s))

/-- The text of a host and what follows it; a colon does not end it between brackets. -/
def spanHost (kind : SchemeKind) (inBrackets : Bool) : List Char → List Char × List Char
  | [] => ([], [])
  | c :: rest =>
    if kind.isSlash c || endsPath c || (c == ':' && !inBrackets) then ([], c :: rest)
    else
      let inside := if c = '[' then true else if c = ']' then false else inBrackets
      let (host, after) := spanHost kind inside rest
      (c :: host, after)

/-- The number of a port and what follows it. -/
def port (n : Nat) : List Char → Except Fault (Nat × List Char)
  | [] => .ok (n, [])
  | c :: rest =>
    if isDigit c then
      let n := n * 10 + digitValue c
      if 65535 < n then .error .invalidPort else port n rest
    else if c = '/' ∨ c = '\\' ∨ endsPath c then .ok (n, c :: rest)
    else .error .invalidPort

/-- The port after a host, if there is one. -/
def portAfter (scheme : List Char) : List Char → Except Fault (Option Nat × List Char)
  | ':' :: rest => do
    let (n, after) ← port 0 rest
    let given := after.length < rest.length
    .ok (if given && usualPort? scheme != some n then some n else none, after)
  | rest => .ok (none, rest)

/-! ## Authorities -/

/-- The text before the last `@` of an authority, if there is one, and what follows it. -/
def spanUser (kind : SchemeKind) (s : List Char) : Option (List Char) × List Char :=
  let all := s.takeWhile fun c => !(kind.isSlash c || endsPath c)
  if all.contains '@' then
    let after := (all.reverse.takeWhile (· ≠ '@')).length
    let before := all.take (all.length - after - 1)
    (some before, s.drop (before.length + 1))
  else (none, s)

/-- User name and password: the name ends at the first colon. -/
def credentials (s : List Char) : List Char × Option (List Char) :=
  let user := s.takeWhile (· ≠ ':')
  let password := (s.dropWhile (· ≠ ':')).drop 1
  (Percent.encode Percent.inUser user,
    if password.isEmpty then none else some (Percent.encode Percent.inUser password))

/-- Whether nothing can follow here but a path, a query or a fragment. -/
def startsPath (kind : SchemeKind) : List Char → Bool
  | [] => false
  | c :: _ => kind.isSlash c || endsPath c

/-- The host of a scheme of some kind. -/
def hostOf (kind : SchemeKind) (name : List Char) : Except Fault Host :=
  if kind = .plain then plainHost name else specialHost name

/-- The authority of a host, and what follows it. Only a host that nothing belongs to may be
empty. -/
def authorityOf (scheme user : List Char) (password : Option (List Char)) (host : Host)
    (afterHost : List Char) : Except Fault (Authority × List Char) :=
  if host = .name [] && (afterHost.head? = some ':' || !user.isEmpty || password.isSome) then
    .error .emptyHost
  else do
    let (port, after) ← portAfter scheme afterHost
    .ok (⟨user, password, host, port⟩, after)

/-- The authority after two slashes, and what follows it. -/
def authorityAt (kind : SchemeKind) (scheme s : List Char) :
    Except Fault (Authority × List Char) :=
  let (before, rest) := spanUser kind s
  let (user, password) := credentials (before.getD [])
  let (name, afterHost) := spanHost kind false rest
  if (before = some [] && startsPath kind rest) || (kind = .special && name.isEmpty) then
    .error .emptyHost
  else do authorityOf scheme user password (← hostOf kind name) afterHost

/-! ## Queries and fragments -/

/-- The admitted characters of a query. -/
def queryCharacters (kind : SchemeKind) : Char → Bool :=
  if kind = .plain then Percent.inQuery else Percent.inWebQuery

/-- The query at the start of a text, if there is one. -/
def queryAt (kind : SchemeKind) : List Char → Option (List Char)
  | '?' :: rest => some (Percent.encode (queryCharacters kind) (rest.takeWhile (· ≠ '#')))
  | _ => none

/-- The fragment of a text, if there is one. -/
def fragmentIn (s : List Char) : Option (List Char) :=
  match s.dropWhile (· ≠ '#') with
  | _ :: rest => some (Percent.encode Percent.inFragment rest)
  | [] => none

/-- A URL whose query and fragment are those of the rest of a text. -/
def finish (kind : SchemeKind) (u : Url) (rest : List Char) : Url :=
  { u with query := queryAt kind rest, fragment := fragmentIn rest }

/-- A URL from its parts and the text from the path on. -/
def build (kind : SchemeKind) (scheme : List Char) (authority : Option Authority)
    (path : List Char → Path) (s : List Char) : Url :=
  finish kind ⟨scheme, authority, path (s.takeWhile (!endsPath ·)), none, none⟩
    (s.dropWhile (!endsPath ·))

/-! ## The kinds of URLs -/

/-- A URL after the two slashes before its authority. -/
def afterSlashes (kind : SchemeKind) (scheme s : List Char) : Except Fault Url := do
  let (a, rest) ← authorityAt kind scheme s
  let path (text : List Char) : Path :=
    if kind = .plain && text.isEmpty then .segments [] else follow kind [] (afterSlash kind text)
  return build kind scheme (some a) path rest

/-- A URL of a scheme that is not special. -/
def plainUrl (scheme : List Char) : List Char → Except Fault Url
  | '/' :: '/' :: rest => afterSlashes .plain scheme rest
  | '/' :: rest => .ok (build .plain scheme none (follow .plain []) rest)
  | s => .ok (build .plain scheme none (.bare ∘ Percent.encode Percent.isPrintable) s)

/-- The authority of a file on a host. -/
def fileAuthority (host : Host) : Authority := ⟨[], none, host, none⟩

/-- A file without a host. -/
def fileUrl (before : List (List Char)) (s : List Char) : Url :=
  build .file "file".toList (some (fileAuthority (.name []))) (follow .file before) s

/-- A file on a host. The host does not count if a drive letter comes directly after it. -/
def hostedFile (host : Host) (s : List Char) : Url :=
  let first := (segmentsFrom .file [] (s.takeWhile (!endsPath ·))).head?
  let counted := if first.any isProperDrive then .name [] else host
  build .file "file".toList (some (fileAuthority counted)) (follow .file []) s

/-- The host of a file after two slashes, and what follows it. -/
def fileHost (s : List Char) : Except Fault (Host × List Char) := do
  let name := s.takeWhile fun c => !(SchemeKind.file.isSlash c || endsPath c)
  if isDrive name then return (.name [], s)
  if name.isEmpty then return (.name [], s)
  let host ← specialHost name
  return (if host = .name "localhost".toList then .name [] else host, s.drop name.length)

/-- A URL that takes authority and path from another. -/
def samePath (base : Url) (kind : SchemeKind) (s : List Char) : Url :=
  match s with
  | '?' :: _ => finish kind base s
  | _ => { base with fragment := fragmentIn s }

/-- The segments of a path; a bare path has none. -/
def Path.items : Path → List (List Char)
  | .segments items => items
  | .bare _ => []

/-- The segments of the folder that a file is in; a drive letter is a folder. -/
def folder (segments : List (List Char)) : List (List Char) :=
  match segments.getLast? with
  | some last => if isProperDrive last then segments else segments.dropLast
  | none => []

/-- A file, possibly relative to another. -/
def fileFrom (base : Option Url) (s : List Char) : Except Fault Url :=
  match s with
  | [] | '?' :: _ | '#' :: _ =>
    match base with
    | some b => .ok (samePath b .file s)
    | none => .ok (fileUrl [] s)
  | c :: rest =>
    if SchemeKind.file.isSlash c then
      match rest with
      | d :: more =>
        if SchemeKind.file.isSlash d then do
          let (host, after) ← fileHost more
          -- Where there is no host, the slash before the path ends an empty segment of it.
          return if host = .name [] then fileUrl [] after
            else hostedFile host (afterSlash .file after)
        else .ok (oneSlash rest)
      | [] => .ok (oneSlash rest)
    else match base with
      | some b =>
        if startsWithDrive s then .ok (fileUrl [] s)
        else .ok (build .file b.scheme b.authority (follow .file (folder b.path.items)) s)
      | none => .ok (fileUrl [] s)
where
  /-- A file after a single slash; drive letter and host are those of the base. -/
  oneSlash (rest : List Char) : Url :=
    match base with
    | some b =>
      if startsWithDrive rest then fileUrl [] rest
      else match b.path.items with
        | first :: _ =>
          if isProperDrive first then fileUrl [first] rest
          else build .file b.scheme b.authority (follow .file []) rest
        | [] => build .file b.scheme b.authority (follow .file []) rest
    | none => fileUrl [] rest

/-- A URL relative to another that is not a file. -/
def relative (base : Url) (s : List Char) : Except Fault Url :=
  let kind := kindOf base.scheme
  match s with
  | [] | '?' :: _ | '#' :: _ => .ok (samePath base kind s)
  | c :: rest =>
    if c = '/' ∨ c = '\\' then
      match c, rest with
      | '/', '/' :: more => afterSlashes kind base.scheme more
      | _, d :: _ =>
        if d = '/' ∨ d = '\\' then
          afterSlashes kind base.scheme (s.dropWhile fun x => x == '/' || x == '\\')
        else .ok (build kind base.scheme base.authority (follow kind []) rest)
      | _, [] => .ok (build kind base.scheme base.authority (follow kind []) rest)
    else
      .ok (build kind base.scheme base.authority (follow kind base.path.items.dropLast) s)

/-- A scheme in lower case and the text after its colon. -/
def scheme? (s : List Char) : Option (List Char × List Char) :=
  let isPart (c : Char) : Bool := isLetter c || isDigit c || c == '+' || c == '-' || c == '.'
  match s, s.dropWhile isPart with
  | first :: _, ':' :: rest =>
    if isLetter first then some ((s.takeWhile isPart).map Char.toLower, rest) else none
  | _, _ => none

/-- A URL with a scheme. -/
def absolute (base : Option Url) (scheme s : List Char) : Except Fault Url :=
  match kindOf scheme with
  | .file => fileFrom (base.filter (·.scheme = scheme)) s
  | .plain => plainUrl scheme s
  | .special =>
    let slashes := (s.takeWhile fun c => c == '/' || c == '\\').length
    match base.filter (·.scheme = scheme) with
    | some b =>
      if slashes < 2 then relative b s else afterSlashes .special scheme (s.drop slashes)
    | none => afterSlashes .special scheme (s.drop slashes)

/-- A text without the control characters and blanks at its ends, and without tabs and line ends
anywhere. -/
def tidy (s : List Char) : List Char :=
  let isEdge (c : Char) : Bool := c ≤ ' '
  let inner := ((s.dropWhile isEdge).reverse.dropWhile isEdge).reverse
  inner.filter fun c => !(c == '\t' || c == '\n' || c == '\r')

/-- The URL that a tidy text writes, possibly relative to another. -/
def resolve (base : Option Url) (s : List Char) : Except Fault Url :=
  match scheme? s, base with
  | some (scheme, rest), _ => absolute base scheme rest
  | none, none => .error .noBase
  | none, some b =>
    match b.path, s with
    | _, '#' :: _ => .ok { b with fragment := fragmentIn s }
    | .bare _, _ => .error .bareBase
    | .segments _, _ => if kindOf b.scheme = .file then fileFrom base s else relative b s

/-- The URL that a text writes. -/
def ofText (s : String) : Except Fault Url := resolve none (tidy s.toList)

/-- The URL that a text writes relative to another. -/
def join (base : Url) (s : String) : Except Fault Url := resolve (some base) (tidy s.toList)

/-- A URL with a query that is given as it stands; characters that a query does not admit are
encoded, and tabs and line ends left out. -/
def withQuery (u : Url) (query : String) : Url :=
  let kept := query.toList.filter fun c => !(c == '\t' || c == '\n' || c == '\r')
  { u with query := some (Percent.encode (queryCharacters (kindOf u.scheme)) kept) }

end TripPlanner.Url
