import TripPlanner.Proofs.Url.Authority
import TripPlanner.Proofs.Url.Path

/-!
# The forms of URLs

A URL that has been read is in one of the forms in which URLs are written (`written_of_resolve`):
its scheme is in lower case, its authority and its path are those of a text that has been read, and
only a file has a host that may be left out.
-/

namespace TripPlanner.Url

open Text

/-! ## Schemes -/

/-- Whether a character may stand in a scheme. -/
def isSchemePart (c : Char) : Bool :=
  isLetter c || isDigit c || c == '+' || c == '-' || c == '.'

/-- A scheme in its one form. -/
structure IsScheme (scheme : List Char) : Prop where
  letter : ∃ first rest, scheme = first :: rest ∧ isLetter first = true
  parts : ∀ c ∈ scheme, isSchemePart c = true ∧ c.toLower = c

theorem toNat_of_isSchemePart {c : Char} (h : isSchemePart c = true) : c.toNat < 128 := by
  simp only [isSchemePart, Bool.or_eq_true, beq_iff_eq] at h
  rcases h with (((hLetter | hDigit) | rfl) | rfl) | rfl
  · exact toNat_of_isLetter hLetter
  · exact Nat.lt_of_le_of_lt (isDigit_iff.mp hDigit).2 (by decide)
  · decide
  · decide
  · decide

theorem lower_isSchemePart {c : Char} (h : isSchemePart c = true) :
    isSchemePart c.toLower = true ∧ c.toLower.toLower = c.toLower ∧
      (isLetter c = true → isLetter c.toLower = true) := by
  have hAll : ∀ n < 128, isSchemePart (Char.ofNat n) = true →
      isSchemePart (Char.ofNat n).toLower = true ∧
        (Char.ofNat n).toLower.toLower = (Char.ofNat n).toLower ∧
        (isLetter (Char.ofNat n) = true → isLetter (Char.ofNat n).toLower = true) := by
    decide
  exact of_ascii (P := fun c => isSchemePart c = true → isSchemePart c.toLower = true ∧
    c.toLower.toLower = c.toLower ∧ (isLetter c = true → isLetter c.toLower = true)) hAll
    (toNat_of_isSchemePart h) h

theorem scheme?_eq (s : List Char) :
    scheme? s =
      match s, s.dropWhile isSchemePart with
      | first :: _, ':' :: rest =>
        if isLetter first then some ((s.takeWhile isSchemePart).map Char.toLower, rest) else none
      | _, _ => none := rfl

/-- A scheme that has been read is in its one form. -/
theorem isScheme_of_scheme? {s scheme rest : List Char} (h : scheme? s = some (scheme, rest)) :
    IsScheme scheme := by
  rw [scheme?_eq] at h
  split at h
  case h_1 first more rest' hRest =>
    split at h
    case isFalse => cases h
    case isTrue hLetter =>
      cases h
      have hFirst : isSchemePart first = true := by simp [isSchemePart, hLetter]
      refine ⟨⟨first.toLower, (more.takeWhile isSchemePart).map Char.toLower, ?_,
        (lower_isSchemePart hFirst).2.2 hLetter⟩, fun c hMem => ?_⟩
      · exact congrArg (List.map Char.toLower)
          (List.takeWhile_cons_of_pos (p := isSchemePart) (l := more) hFirst)
      · obtain ⟨d, hd, rfl⟩ := List.mem_map.mp hMem
        obtain ⟨hPart, hLower, -⟩ :=
          lower_isSchemePart (List.mem_takeWhile_imp (p := isSchemePart) hd)
        exact ⟨hPart, hLower⟩
  case h_2 => cases h

theorem isScheme_file : IsScheme "file".toList :=
  ⟨⟨'f', ['i', 'l', 'e'], by decide, by decide⟩, List.all_iff_forall_prop.mp (by decide)⟩

variable {kind : SchemeKind} {scheme rest : List Char}

/-! ## The forms of URLs -/

/-- A path without a slash at its start. -/
structure IsBare (text : List Char) : Prop where
  printable : ∀ c ∈ text, Percent.isPrintable c = true
  path : ∀ c ∈ text, endsPath c = false
  slashless : text.head? ≠ some '/'

/-- A host of a file, which may be left out. -/
inductive IsFileHost : Host → Prop
  | here : IsFileHost (.name [])
  | there {host : Host} (hHost : host.Written .file) (hOther : host ≠ .name "localhost".toList) :
    IsFileHost host

/-- The forms in which URLs are written. -/
inductive Written : Url → Prop
  | bare {scheme text : List Char} {query fragment : Option (List Char)} (hScheme : IsScheme scheme)
    (hKind : kindOf scheme = .plain) (hText : IsBare text) :
    Written ⟨scheme, none, .bare text, query, fragment⟩
  | rooted {scheme : List Char} {items : List (List Char)} {query fragment : Option (List Char)}
    (hScheme : IsScheme scheme) (hKind : kindOf scheme = .plain) (hPath : IsPath .plain items) :
    Written ⟨scheme, none, .segments items, query, fragment⟩
  | hosted {scheme : List Char} {a : Authority} {items : List (List Char)}
    {query fragment : Option (List Char)} (hScheme : IsScheme scheme)
    (hKind : kindOf scheme ≠ .file) (hAuthority : a.Written (kindOf scheme) scheme)
    (hPath : IsPath (kindOf scheme) items ∨ (kindOf scheme = .plain ∧ items = [])) :
    Written ⟨scheme, some a, .segments items, query, fragment⟩
  | file {host : Host} {items : List (List Char)} {query fragment : Option (List Char)}
    (hHost : IsFileHost host) (hPath : IsPath .file items) :
    Written ⟨"file".toList, some (fileAuthority host), .segments items, query, fragment⟩

theorem Written.isScheme {u : Url} (h : u.Written) : IsScheme u.scheme := by
  cases h with
  | bare hScheme => exact hScheme
  | rooted hScheme => exact hScheme
  | hosted hScheme => exact hScheme
  | file => exact isScheme_file

/-! ## URLs that have been read -/

theorem endsPath_of_isEncoding {c : Char} (h : Percent.isEncoding c = true) :
    endsPath c = false := by
  rw [endsPath, Bool.or_eq_false_iff, beq_eq_false_iff_ne, beq_eq_false_iff_ne]
  refine ⟨?_, ?_⟩
  · rintro rfl
    cases h
  · rintro rfl
    cases h

theorem build_eq (kind : SchemeKind) (scheme : List Char) (authority : Option Authority)
    (path : List Char → Path) (s : List Char) :
    ∃ text query fragment, build kind scheme authority path s =
      ⟨scheme, authority, path text, query, fragment⟩ ∧ text <+: s ∧
        ∀ c ∈ text, endsPath c = false := by
  refine ⟨s.takeWhile (!endsPath ·), _, _, rfl, List.takeWhile_prefix _, fun c hMem => ?_⟩
  have hEnds := List.mem_takeWhile_imp hMem
  simpa using hEnds

theorem written_afterSlashes (hScheme : IsScheme scheme) (hKind : kindOf scheme ≠ .file)
    {s : List Char} {u : Url} (h : afterSlashes (kindOf scheme) scheme s = .ok u) : u.Written := by
  rw [afterSlashes] at h
  obtain ⟨⟨a, after⟩, hAuthority, h⟩ := Checks.bind_eq_ok.mp h
  cases h
  have hWritten := written_authorityAt hAuthority
  obtain ⟨text, query, fragment, hBuild, -⟩ := build_eq (kindOf scheme) scheme (some a)
    (fun text => if kindOf scheme = .plain && text.isEmpty then .segments []
      else follow (kindOf scheme) [] (afterSlash (kindOf scheme) text)) after
  rw [hBuild]
  split
  case isTrue hPlain =>
    rw [Bool.and_eq_true, decide_eq_true_eq] at hPlain
    exact .hosted hScheme hKind hWritten (Or.inr ⟨hPlain.1, rfl⟩)
  case isFalse =>
    obtain ⟨items, hFollow, hPath⟩ :=
      isPath_follow (kindOf scheme) (afterSlash (kindOf scheme) text)
    rw [hFollow]
    exact .hosted hScheme hKind hWritten (Or.inl hPath)

theorem written_plainUrl (hScheme : IsScheme scheme) (hKind : kindOf scheme = .plain)
    {s : List Char} {u : Url} (h : plainUrl scheme s = .ok u) : u.Written := by
  unfold plainUrl at h
  split at h
  case h_1 => exact written_afterSlashes hScheme (by rw [hKind]; decide) (hKind ▸ h)
  case h_2 more _ =>
    cases h
    obtain ⟨text, query, fragment, hBuild, -⟩ := build_eq .plain scheme none (follow .plain []) more
    obtain ⟨items, hFollow, hPath⟩ := isPath_follow .plain text
    rw [hBuild, hFollow]
    exact .rooted hScheme hKind hPath
  case h_3 hSlashes hSlash =>
    cases h
    obtain ⟨text, query, fragment, hBuild, hPrefix, hText⟩ :=
      build_eq .plain scheme none (.bare ∘ Percent.encode Percent.isPrintable) s
    rw [hBuild]
    refine .bare hScheme hKind ⟨fun c => Percent.admitted_of_mem_encode
      Percent.admitsEncoding_isPrintable, fun c hMem => ?_, fun hHead => ?_⟩
    · rcases Percent.mem_encode hMem with ⟨hOld, -⟩ | hEncoding
      · exact hText c hOld
      · exact endsPath_of_isEncoding hEncoding
    · rcases Percent.head?_encode hHead with hOld | hEncoding
      · obtain ⟨more, hMore⟩ := List.head?_eq_some_iff.mp hOld
        obtain ⟨after, hAfter⟩ := hPrefix
        rw [hMore, List.cons_append] at hAfter
        exact hSlash _ hAfter.symm
      · cases hEncoding

/-- A file whose path a text goes on with from its start. -/
theorem written_build_file {host : Host} (hHost : IsFileHost host) (s : List Char) :
    (build .file "file".toList (some (fileAuthority host)) (follow .file []) s).Written := by
  obtain ⟨text, query, fragment, hBuild, -⟩ := build_eq .file "file".toList
    (some (fileAuthority host)) (follow .file []) s
  obtain ⟨items, hFollow, hPath⟩ := isPath_follow .file text
  rw [hBuild, hFollow]
  exact .file hHost hPath

theorem written_hostedFile {host : Host} (hHost : IsFileHost host) (s : List Char) :
    (hostedFile host s).Written := by
  refine written_build_file ?_ s
  split
  case isTrue => exact .here
  case isFalse => exact hHost

theorem isFileHost_of_fileHost {s rest : List Char} {host : Host}
    (h : fileHost s = .ok (host, rest)) : IsFileHost host := by
  rw [fileHost] at h
  split at h
  case isTrue =>
    cases h
    exact .here
  case isFalse =>
    split at h
    case isTrue =>
      cases h
      exact .here
    case isFalse =>
      obtain ⟨host', hHost, h⟩ := Checks.bind_eq_ok.mp h
      cases h
      split
      case isTrue => exact .here
      case isFalse hOther => exact .there (Host.written_specialHost (by decide) hHost) hOther

theorem written_fileFrom {s : List Char} {u : Url} (h : fileFrom none s = .ok u) : u.Written := by
  have hPlain : ∀ s, (fileUrl [] s).Written := written_build_file .here
  unfold fileFrom at h
  split at h
  case h_4 c rest _ _ =>
    split at h
    case isTrue =>
      split at h
      case h_1 d more =>
        split at h
        case isTrue =>
          obtain ⟨⟨host, after⟩, hHost, h⟩ := Checks.bind_eq_ok.mp h
          cases h
          split
          case isTrue => exact hPlain after
          case isFalse => exact written_hostedFile (isFileHost_of_fileHost hHost) _
        case isFalse =>
          cases h
          exact hPlain (d :: more)
      case h_2 =>
        cases h
        exact hPlain []
    case isFalse =>
      cases h
      exact hPlain _
  all_goals
    cases h
    exact hPlain _

/-- What is read is in the form in which it is written. -/
theorem written_of_resolve {s : List Char} {u : Url} (h : resolve none s = .ok u) : u.Written := by
  unfold resolve at h
  split at h
  case h_1 scheme rest hScheme =>
    have hIsScheme := isScheme_of_scheme? hScheme
    unfold absolute at h
    split at h
    case h_1 => exact written_fileFrom h
    case h_2 hKind => exact written_plainUrl hIsScheme hKind h
    case h_3 hKind =>
      rw [← hKind] at h
      exact written_afterSlashes hIsScheme (by rw [hKind]; decide) h
  case h_2 => cases h
  case h_3 hBase => cases hBase

end TripPlanner.Url
