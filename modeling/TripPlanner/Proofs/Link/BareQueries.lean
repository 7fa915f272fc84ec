import TripPlanner.Proofs.Link.Settings
import TripPlanner.Proofs.Url.Web

/-!
# Links without their URLs

A query that begins with the name of a pair has no scheme, since an equals sign comes before any
colon (`scheme?_bare`). So it is never taken for a URL, and as nothing in it is trimmed or encoded
it is put on a page as it stands, with the question mark before it or without (`ofText_bare`). A
link and its query on its own say the same about a trip (`bare_query`).
-/

namespace TripPlanner

namespace Url

/-- A text whose first colon does not end a scheme is relative to another URL. -/
theorem scheme?_eq_none {s : List Char} (h : (s.dropWhile isSchemePart).head? ≠ some ':') :
    scheme? s = none := by
  rw [scheme?_eq]
  split
  case h_1 hColon =>
    rw [hColon] at h
    exact absurd rfl h
  case h_2 => rfl

theorem scheme?_bare {name : List Char} (h : ':' ∉ name) (rest : List Char) :
    scheme? (name ++ '=' :: rest) = none := by
  refine scheme?_eq_none fun hColon => h ?_
  rw [List.dropWhile_append, List.dropWhile_cons_of_neg (by decide)] at hColon
  split at hColon
  case isTrue => cases hColon
  case isFalse hNe =>
    rw [List.head?_append_of_ne_nil _ (by simpa using hNe)] at hColon
    exact (List.dropWhile_suffix isSchemePart).subset (List.mem_of_mem_head? hColon)

end Url

namespace Link

open Text

/-- The names of all pairs that links are written with. -/
def pairNames : List String := names ++ [localeName, profileName]

/-- A query begins with the name of a pair and the equals sign after it. -/
def BeginsWithName (q : List Char) : Prop := ∃ name ∈ pairNames, name.toList ++ ['='] <+: q

/-- The page that queries are put on which come without a URL. -/
def page : Url := ⟨"http".toList, some ⟨[], none, .name "localhost".toList, none⟩,
  .segments [[]], none, none⟩

theorem ofText_page : Url.ofText "http://localhost/" = .ok page := by
  have hRead : (Url.ofText "http://localhost/").toOption = some page := by decide +kernel
  exact Checks.toOption_eq_some.mp hRead

theorem ofText_of_ok {s : String} {u : Url} (h : Url.ofText s = .ok u) : ofText s = u := by
  rw [ofText, h]

theorem ofText_of_error {s : String} {fault : Url.Fault} (h : Url.ofText s = .error fault) :
    ofText s = page.withQuery (String.ofList ((trim s.toList).dropWhile (· = '?'))) := by
  rw [ofText, h]
  rfl

theorem isBlank_of_isPrintable {c : Char} (h : Url.Percent.isPrintable c = true) (hNe : c ≠ ' ') :
    isBlank c = false := by
  have hAll : ∀ n < 128, Url.Percent.isPrintable (Char.ofNat n) = true → Char.ofNat n ≠ ' ' →
      isBlank (Char.ofNat n) = false := by decide
  have hAscii := Nat.lt_of_le_of_lt (Url.Percent.isPrintable_iff.mp h).2 (show 126 < 128 by decide)
  exact of_ascii (P := fun c => Url.Percent.isPrintable c = true → c ≠ ' ' → isBlank c = false)
    hAll hAscii h hNe

/-- A text without blanks and without a scheme is put on the page, less the question marks that it
begins with. -/
theorem ofText_without_scheme {s : List Char}
    (h : ∀ c ∈ s, Url.Percent.isPrintable c = true ∧ c ≠ ' ') (hScheme : Url.scheme? s = none) :
    ofText (String.ofList s) = page.withQuery (String.ofList (s.dropWhile (· = '?'))) := by
  have hTidy : Url.tidy s = s := by
    refine Url.tidy_eq_self (fun c hMem => (h c hMem).1) ?_ ?_
    · exact fun hBlank => (h _ (List.mem_of_mem_head? hBlank)).2 rfl
    · exact fun hBlank => (h _ (List.mem_of_getLast? hBlank)).2 rfl
  have hError : Url.ofText (String.ofList s) = .error .noBase := by
    simp only [Url.ofText, String.toList_ofList, hTidy, Url.resolve, hScheme]
  have hTrim : trim s = s :=
    trim_eq_self fun c hMem => isBlank_of_isPrintable (h c hMem).1 (h c hMem).2
  rw [ofText_of_error hError, String.toList_ofList, hTrim]

/-- The names of pairs are no schemes, and no question mark begins them. -/
theorem plain_of_mem_pairNames {name : String} (h : name ∈ pairNames) :
    ':' ∉ name.toList ∧ ∃ first rest, name.toList = first :: rest ∧ first ≠ '?' := by
  have hAll : ∀ name ∈ pairNames, ':' ∉ name.toList ∧ name.toList.head?.any (· ≠ '?') := by decide
  obtain ⟨hColon, hFirst⟩ := hAll name h
  obtain ⟨first, hHead, hMark⟩ := (Option.any_eq_true _ _).mp hFirst
  obtain ⟨rest, hRest⟩ := List.head?_eq_some_iff.mp hHead
  exact ⟨hColon, first, rest, hRest, by simpa using hMark⟩

/-- A query that begins with the name of a pair is put on the page as it stands. -/
theorem ofText_bare {q : List Char} (h : ∀ c ∈ q, Url.queryCharacters .special c = true)
    (hName : BeginsWithName q) :
    ofText (String.ofList q) = { page with query := some q } ∧
      ofText ("?" ++ String.ofList q) = { page with query := some q } := by
  have hBlank : ∀ c ∈ q, Url.Percent.isPrintable c = true ∧ c ≠ ' ' := fun c hMem =>
    (Url.not_mark_of_queryCharacters (h c hMem)).imp_right And.right
  obtain ⟨name, hMem, rest, hq⟩ := hName
  obtain ⟨hColon, first, more, hText, hMark⟩ := plain_of_mem_pairNames hMem
  have hMarks : q.dropWhile (· = '?') = q := by
    rw [← hq, hText]
    exact List.dropWhile_cons_of_neg (by simpa using hMark)
  have hPage : page.withQuery (String.ofList q) = { page with query := some q } :=
    Url.withQuery_eq h (Or.inl rfl)
  constructor
  · have hScheme : Url.scheme? q = none := by
      rw [← hq, List.append_assoc]
      exact Url.scheme?_bare hColon rest
    rw [ofText_without_scheme hBlank hScheme, hMarks, hPage]
  · have hBlank' : ∀ c ∈ '?' :: q, Url.Percent.isPrintable c = true ∧ c ≠ ' ' :=
      List.forall_mem_cons.mpr ⟨by decide, hBlank⟩
    have hScheme : Url.scheme? ('?' :: q) = none := by
      refine Url.scheme?_eq_none ?_
      rw [List.dropWhile_cons_of_neg (by decide)]
      nofun
    have hJoined : "?" ++ String.ofList q = String.ofList ('?' :: q) := String.ofList_append.symm
    rw [hJoined, ofText_without_scheme hBlank' hScheme, List.dropWhile_cons_of_pos (by decide),
      hMarks, hPage]

/-! ## Links and their queries -/

/-- The query of a link begins with the name of its first pair. -/
theorem beginsWithName_link (f : LinkFormat) (base : Url) (q : Query) :
    ∃ query, (f.link base q).query = some query ∧ BeginsWithName query := by
  obtain ⟨name, value, rest, hPairs, hName⟩ : ∃ name value rest,
      f.pairs q = (name, value) :: rest ∧ name ∈ [pointName, timeName] := by
    rw [LinkFormat.pairs]
    cases q.origin with
    | some c => exact ⟨pointName, _, _, rfl, List.mem_cons_self⟩
    | none =>
      cases q.destination with
      | some c => exact ⟨pointName, _, _, rfl, List.mem_cons_self⟩
      | none => exact ⟨timeName, _, _, rfl, List.mem_cons_of_mem _ List.mem_cons_self⟩
  have hPlain : ∀ name ∈ [pointName, timeName],
      name ∈ pairNames ∧ Url.Form.encode name.toList = name.toList := by decide
  obtain ⟨hMem, hEncode⟩ := hPlain name hName
  refine ⟨_, rfl, name, hMem, ?_⟩
  rw [hPairs, ← hEncode]
  exact Url.Form.prefix_write (name.toList, value.toList) _

/-- The text of a URL, its query on its own and its query after a question mark all say the same
about a trip. The latter two are read on the page as they stand. -/
structure ReadAlike (u : Url) (q : List Char) : Prop where
  text : ofText u.text = u
  bare : ofText (String.ofList q) = { page with query := some q }
  marked : ofText ("?" ++ String.ofList q) = { page with query := some q }
  same : edit { page with query := some q } = edit u

theorem readAlike {u : Url} {q : List Char} (h : u.Written) (hTail : u.Tailed) (hWeb : u.IsWeb)
    (hQuery : u.query = some q) (hName : BeginsWithName q) : ReadAlike u q := by
  have hAdmitted : ∀ c ∈ q, Url.queryCharacters .special c = true :=
    hWeb.kindOf_eq ▸ hTail.query q hQuery
  obtain ⟨hBare, hMarked⟩ := ofText_bare hAdmitted hName
  refine ⟨ofText_of_ok (Url.ofText_text h hTail hWeb), hBare, hMarked, ?_⟩
  rw [edit, edit, pairs, pairs, Url.pairs, Url.pairs, hQuery]

/-- **A link and its query on its own say the same.** A text that is a URL of the web is that URL.
If its query begins with the name of a pair and an equals sign, then this query, with a question
mark before it or without, is never taken for a URL: it is put on a page as it stands, and so is
read as the same edit, whether the URL has a fragment or not. The written URL is read as itself. All
of this holds of the link of any query on any URL of the web that has been read: its query begins
with such a name, whatever its texts hold. -/
theorem bare_query :
    Url.ofText "http://localhost/" = .ok page ∧
      (∀ s u q, Url.ofText s = .ok u → u.IsWeb → u.query = some q → BeginsWithName q →
        ofText s = u ∧ ReadAlike u q) ∧
      ∀ (f : LinkFormat) s base (q : Query), Url.ofText s = .ok base → base.IsWeb →
        ∃ query, (f.link base q).query = some query ∧ BeginsWithName query ∧
          ReadAlike (f.link base q) query := by
  refine ⟨ofText_page, fun s u q hRead hWeb hQuery hName => ?_, fun f s base q hRead hWeb => ?_⟩
  · exact ⟨ofText_of_ok hRead, readAlike (Url.written_of_resolve hRead)
      (Url.tailed_of_resolve hRead) hWeb hQuery hName⟩
  · obtain ⟨query, hQuery, hName⟩ := beginsWithName_link f base q
    have hWritten : (f.link base q).Written :=
      Url.written_withPairs (Url.written_of_resolve hRead) _
    have hTail : (f.link base q).Tailed := Url.tailed_withPairs _ _
    exact ⟨query, hQuery, hName, readAlike hWritten hTail hWeb hQuery hName⟩

/-- A profile with a colon, slashes and a question mark in its name, and a fragment after it. -/
theorem bare_query_usual :
    let q := "pt.access_profile=http://a?b".toList
    ∃ u, Url.ofText "HTTP://Host?pt.access_profile=http://a?b#there" = .ok u ∧ u.IsWeb ∧
      u.query = some q ∧ BeginsWithName q ∧ ReadAlike u q ∧
      (edit u).accessProfile = some "http://a?b" := by
  intro q
  let u : Url := ⟨"http".toList, some ⟨[], none, .name "host".toList, none⟩, .segments [[]],
    some q, some "there".toList⟩
  have hRead : (Url.ofText "HTTP://Host?pt.access_profile=http://a?b#there").toOption = some u := by
    decide +kernel
  have hOk := Checks.toOption_eq_some.mp hRead
  have hName : BeginsWithName q := ⟨accessProfileName, by decide, by decide⟩
  obtain ⟨-, hAlike, -⟩ := bare_query
  exact ⟨u, hOk, Or.inl rfl, rfl, hName, (hAlike _ u q hOk (Or.inl rfl) rfl hName).2,
    by decide +kernel⟩

end Link

end TripPlanner
