import TripPlanner.Proofs.Url.RoundTrip

/-!
# Web URLs read back

Query and fragment of a URL that has been read hold admitted characters only (`tailed_of_resolve`),
so they are read again as they stand (`finish_tail`). A URL of the web is therefore read as it was
written, with whatever query and fragment it has (`ofText_text`), and its query may be put on
another URL of the web without a change (`withQuery_eq`).
-/

namespace TripPlanner.Url

open Text

variable {u : Url}

/-- A URL of the web. -/
def IsWeb (u : Url) : Prop := u.scheme = "http".toList ∨ u.scheme = "https".toList

theorem IsWeb.kindOf_eq (h : u.IsWeb) : kindOf u.scheme = .special := by
  rcases h with h | h
  all_goals
    rw [h]
    decide

/-! ## Queries and fragments that have been read -/

/-- Query and fragment hold admitted characters. -/
structure Tailed (u : Url) : Prop where
  query : ∀ q ∈ u.query, ∀ c ∈ q, queryCharacters (kindOf u.scheme) c = true
  fragment : ∀ f ∈ u.fragment, ∀ c ∈ f, Percent.inFragment c = true

theorem admitsEncoding_queryCharacters (kind : SchemeKind) :
    Percent.AdmitsEncoding (queryCharacters kind) :=
  Percent.admitsEncoding_of_ascii (by cases kind <;> decide)

theorem admitsEncoding_inFragment : Percent.AdmitsEncoding Percent.inFragment :=
  Percent.admitsEncoding_of_ascii (by decide)

theorem queryCharacters_of_mem_queryAt {kind : SchemeKind} {s q : List Char}
    (h : queryAt kind s = some q) {c : Char} (hMem : c ∈ q) : queryCharacters kind c = true := by
  unfold queryAt at h
  split at h
  case h_1 =>
    cases h
    exact Percent.admitted_of_mem_encode (admitsEncoding_queryCharacters kind) hMem
  case h_2 => cases h

theorem inFragment_of_mem_fragmentIn {s f : List Char} (h : fragmentIn s = some f) {c : Char}
    (hMem : c ∈ f) : Percent.inFragment c = true := by
  unfold fragmentIn at h
  split at h
  case h_1 =>
    cases h
    exact Percent.admitted_of_mem_encode admitsEncoding_inFragment hMem
  case h_2 => cases h

theorem tailed_build {kind : SchemeKind} {scheme : List Char} (hKind : kindOf scheme = kind)
    (authority : Option Authority) (path : List Char → Path) (s : List Char) :
    (build kind scheme authority path s).Tailed where
  query _ hQuery _ hMem := by
    rw [← hKind] at hQuery
    exact queryCharacters_of_mem_queryAt hQuery hMem
  fragment _ hFragment _ hMem := inFragment_of_mem_fragmentIn hFragment hMem

theorem tailed_afterSlashes {kind : SchemeKind} {scheme s : List Char}
    (hKind : kindOf scheme = kind) (h : afterSlashes kind scheme s = .ok u) : u.Tailed := by
  obtain ⟨⟨a, rest⟩, -, h⟩ := Checks.bind_eq_ok.mp h
  cases h
  exact tailed_build hKind _ _ _

theorem tailed_plainUrl {scheme s : List Char} (hKind : kindOf scheme = .plain)
    (h : plainUrl scheme s = .ok u) : u.Tailed := by
  unfold plainUrl at h
  split at h
  case h_1 => exact tailed_afterSlashes hKind h
  all_goals
    cases h
    exact tailed_build hKind _ _ _

theorem tailed_fileUrl (before : List (List Char)) (s : List Char) : (fileUrl before s).Tailed :=
  tailed_build rfl _ _ _

theorem tailed_hostedFile (host : Host) (s : List Char) : (hostedFile host s).Tailed :=
  tailed_build rfl _ _ _

theorem tailed_fileFrom {s : List Char} (h : fileFrom none s = .ok u) : u.Tailed := by
  unfold fileFrom at h
  split at h
  case h_4 =>
    split at h
    case isTrue =>
      split at h
      case h_1 =>
        split at h
        case isTrue =>
          obtain ⟨⟨host, after⟩, -, h⟩ := Checks.bind_eq_ok.mp h
          cases h
          split
          case isTrue => exact tailed_fileUrl _ _
          case isFalse => exact tailed_hostedFile _ _
        case isFalse =>
          cases h
          exact tailed_fileUrl _ _
      case h_2 =>
        cases h
        exact tailed_fileUrl [] []
    case isFalse =>
      cases h
      exact tailed_fileUrl _ _
  all_goals
    cases h
    exact tailed_fileUrl _ _

/-- Query and fragment of what is read hold admitted characters. -/
theorem tailed_of_resolve {s : List Char} (h : resolve none s = .ok u) : u.Tailed := by
  unfold resolve at h
  split at h
  case h_1 scheme rest _ =>
    unfold absolute at h
    split at h
    case h_1 => exact tailed_fileFrom h
    case h_2 hKind => exact tailed_plainUrl hKind h
    case h_3 hKind => exact tailed_afterSlashes hKind h
  case h_2 => cases h
  case h_3 hBase => cases hBase

theorem tailed_withPairs (u : Url) (ps : List (List Char × List Char)) :
    (u.withPairs ps).Tailed where
  query _ hQuery _ hMem := by
    cases hQuery
    exact (queryCharacters_of_mem_write _ hMem).1
  fragment := nofun

/-! ## Queries and fragments read back -/

theorem not_mark_of_queryCharacters {kind : SchemeKind} {c : Char}
    (h : queryCharacters kind c = true) : Percent.isPrintable c = true ∧ c ≠ '#' ∧ c ≠ ' ' := by
  have hPrintable : Percent.isPrintable c = true := by
    cases kind <;> exact (Bool.and_eq_true _ _ ▸ h).1
  refine ⟨hPrintable, ?_, ?_⟩
  all_goals
    rintro rfl
    cases kind <;> cases h

theorem not_blank_of_inFragment {c : Char} (h : Percent.inFragment c = true) :
    Percent.isPrintable c = true ∧ c ≠ ' ' := by
  refine ⟨(Bool.and_eq_true _ _ ▸ h).1, ?_⟩
  rintro rfl
  cases h

/-- Query and fragment as they are written after the path. -/
def tail (u : Url) : List Char := writePart '?' u.query ++ writePart '#' u.fragment

theorem write_eq_stem (u : Url) : u.write = u.stem ++ u.tail := by
  simp only [write, stem, tail, List.append_assoc, List.cons_append]

theorem afterPath_tail (u : Url) : AfterPath u.tail := by
  unfold tail
  cases u.query with
  | some q =>
    rintro c ⟨⟩
    decide
  | none =>
    cases u.fragment with
    | some f =>
      rintro c ⟨⟩
      decide
    | none => nofun

theorem notMem_writePart_query (h : u.Tailed) : '#' ∉ writePart '?' u.query := by
  intro hMem
  cases hQuery : u.query with
  | none =>
    rw [hQuery] at hMem
    cases hMem
  | some q =>
    rw [hQuery] at hMem
    rcases List.mem_cons.mp hMem with hMark | hMem
    · exact absurd hMark (by decide)
    · exact (not_mark_of_queryCharacters (h.query q hQuery _ hMem)).2.1 rfl

theorem ends_at_fragment (fragment : Option (List Char)) :
    ∀ c ∈ (writePart '#' fragment).head?, decide (c ≠ '#') = false := by
  cases fragment with
  | none => nofun
  | some f =>
    rintro c ⟨⟩
    decide

/-- Query and fragment are read as they were written. -/
theorem finish_tail (h : u.Tailed) : finish (kindOf u.scheme) u u.tail = u := by
  have hMarks : ∀ c ∈ writePart '?' u.query, decide (c ≠ '#') = true := fun c hMem =>
    decide_eq_true fun hEq => notMem_writePart_query h (hEq ▸ hMem)
  have hQuery : queryAt (kindOf u.scheme) u.tail = u.query := by
    unfold tail
    cases hQuery : u.query with
    | none =>
      cases u.fragment <;> rfl
    | some q =>
      rw [hQuery] at hMarks
      rw [writePart, List.cons_append, queryAt, takeWhile_of_ends
        (List.forall_mem_cons.mp hMarks).2 (ends_at_fragment u.fragment),
        Percent.encode_eq_self (h.query q hQuery)]
  have hFragment : fragmentIn u.tail = u.fragment := by
    rw [fragmentIn, tail, dropWhile_of_ends hMarks (ends_at_fragment u.fragment)]
    cases hFragment : u.fragment with
    | none => rfl
    | some f => exact congrArg some (Percent.encode_eq_self (h.fragment f hFragment))
  rw [finish, hQuery, hFragment]

theorem mem_tail (h : u.Tailed) {c : Char} (hMem : c ∈ u.tail) :
    Percent.isPrintable c = true ∧ c ≠ ' ' := by
  rcases List.mem_append.mp hMem with hMem | hMem
  · cases hQuery : u.query with
    | none =>
      rw [hQuery] at hMem
      cases hMem
    | some q =>
      rw [hQuery] at hMem
      rcases List.mem_cons.mp hMem with rfl | hMem
      · decide
      · obtain ⟨hPrintable, -, hBlank⟩ := not_mark_of_queryCharacters (h.query q hQuery c hMem)
        exact ⟨hPrintable, hBlank⟩
  · cases hFragment : u.fragment with
    | none =>
      rw [hFragment] at hMem
      cases hMem
    | some f =>
      rw [hFragment] at hMem
      rcases List.mem_cons.mp hMem with rfl | hMem
      · decide
      · exact not_blank_of_inFragment (h.fragment f hFragment c hMem)

/-! ## URLs of the web -/

theorem not_losesHost_of_isWeb (h : u.IsWeb) : u.losesHost = false := by
  rw [losesHost, h.kindOf_eq]
  rfl

/-- The path of a URL of the web is not empty, and no blank stands in it. -/
theorem path_of_isWeb (h : u.Written) (hWeb : u.IsWeb) :
    u.path.write ≠ [] ∧ ∀ c ∈ u.path.write, c ≠ ' ' := by
  have hKind := hWeb.kindOf_eq
  cases h with
  | bare _ hPlain => exact absurd (hPlain.symm.trans hKind) nofun
  | rooted _ hPlain => exact absurd (hPlain.symm.trans hKind) nofun
  | file => exact absurd hKind (show kindOf "file".toList ≠ .special by decide)
  | hosted _ _ _ hPath =>
    rcases hPath with hPath | ⟨hPlain, -⟩
    case inr => exact absurd (hPlain.symm.trans hKind) nofun
    obtain ⟨first, rest, rfl⟩ := List.exists_cons_of_ne_nil hPath.ne_nil
    refine ⟨List.cons_ne_nil _ _, fun c hMem => ?_⟩
    obtain ⟨segment, hSegment, hMem⟩ := List.mem_flatMap.mp hMem
    rcases List.mem_cons.mp hMem with rfl | hMem
    · decide
    · rintro rfl
      exact absurd ((hPath.segments segment hSegment).admitted _ hMem) (by decide)

theorem tidy_write (h : u.Written) (hTail : u.Tailed) (hWeb : u.IsWeb) :
    tidy u.write = u.write := by
  obtain ⟨hPathNe, hPath⟩ := path_of_isWeb h hWeb
  have hLast : u.write.getLast? ≠ some ' ' := by
    intro hBlank
    have hWrite : u.write = (u.scheme ++ ':' :: u.writeAuthority) ++ (u.path.write ++ u.tail) := by
      simp only [write_eq_stem, stem, List.append_assoc, List.cons_append]
    rw [hWrite, List.getLast?_append_of_ne_nil _ (List.append_ne_nil_of_left_ne_nil hPathNe _)]
      at hBlank
    rcases List.mem_append.mp (List.mem_of_getLast? hBlank) with hMem | hMem
    · exact hPath _ hMem rfl
    · exact (mem_tail hTail hMem).2 rfl
  refine tidy_eq_self (fun c hMem => ?_) ?_ hLast
  · rw [write_eq_stem] at hMem
    rcases List.mem_append.mp hMem with hMem | hMem
    · exact isPrintable_of_mem_stem h hMem
    · exact (mem_tail hTail hMem).1
  · rw [write_eq_stem]
    exact head?_stem h u.tail

/-- A URL of the web is read as it was written. -/
theorem ofText_text (h : u.Written) (hTail : u.Tailed) (hWeb : u.IsWeb) :
    ofText u.text = .ok u := by
  rw [ofText, text, String.toList_ofList, tidy_write h hTail hWeb, write_eq_stem,
    resolve_stem h (not_losesHost_of_isWeb hWeb) (afterPath_tail u), finish_tail hTail]

/-- A query that has been read is put on a URL of the web as it stands. -/
theorem withQuery_eq {q : List Char} (h : ∀ c ∈ q, queryCharacters .special c = true) {page : Url}
    (hPage : page.IsWeb) :
    page.withQuery (String.ofList q) = { page with query := some q } := by
  have hKept := filter_printable fun c hMem => (not_mark_of_queryCharacters (h c hMem)).1
  rw [withQuery, String.toList_ofList, hKept, hPage.kindOf_eq, Percent.encode_eq_self h]

end TripPlanner.Url
