import TripPlanner.Proofs.Url.Shape

/-!
# URLs read back

From a form in which URLs are written scheme, authority and path are read as they were written,
whatever query and fragment follow (`resolve_stem`). Only a file on a host whose path begins with a
drive letter is read without the host (`resolve_of_losesHost`).
-/

namespace TripPlanner.Url

open Text

variable {kind : SchemeKind} {scheme rest : List Char}

/-! ## Schemes -/

/-- A scheme is read as it was written. -/
theorem scheme?_write {scheme : List Char} (h : IsScheme scheme) (rest : List Char) :
    scheme? (scheme ++ ':' :: rest) = some (scheme, rest) := by
  obtain ⟨first, more, rfl, hLetter⟩ := h.letter
  have hParts : ∀ c ∈ first :: more, isSchemePart c = true := fun c hMem => (h.parts c hMem).1
  have hColon : ∀ c ∈ (':' :: rest).head?, isSchemePart c = false := by
    rintro c ⟨⟩
    decide
  have hLower : (first :: more).map Char.toLower = first :: more :=
    (List.map_congr_left fun c hMem => (h.parts c hMem).2).trans (List.map_id _)
  rw [scheme?_eq, takeWhile_of_ends hParts hColon, dropWhile_of_ends hParts hColon, hLower]
  exact if_pos hLetter

/-! ## What follows a path -/

/-- A query or a fragment begins, or nothing follows. -/
def AfterPath (rest : List Char) : Prop := ∀ c ∈ rest.head?, endsPath c = true

theorem cut_path {text : List Char} (hText : ∀ c ∈ text, endsPath c = false)
    (hRest : AfterPath rest) :
    (text ++ rest).takeWhile (!endsPath ·) = text ∧
      (text ++ rest).dropWhile (!endsPath ·) = rest := by
  have hAll : ∀ c ∈ text, (!endsPath c) = true := fun c hMem => by rw [hText c hMem]; rfl
  have hEnds : ∀ c ∈ rest.head?, (!endsPath c) = false := fun c hMem => by rw [hRest c hMem]; rfl
  exact ⟨takeWhile_of_ends hAll hEnds, dropWhile_of_ends hAll hEnds⟩

theorem build_write {authority : Option Authority} {path : List Char → Path} {text : List Char}
    (hText : ∀ c ∈ text, endsPath c = false) (hRest : AfterPath rest) :
    build kind scheme authority path (text ++ rest) =
      finish kind ⟨scheme, authority, path text, none, none⟩ rest := by
  obtain ⟨hPath, hAfter⟩ := cut_path hText hRest
  rw [build, hPath, hAfter]

/-! ## URLs that are read again -/

/-- A URL up to its query. -/
def stem (u : Url) : List Char := u.scheme ++ ':' :: (u.writeAuthority ++ u.path.write)

/-- Whether a URL is a file on a host whose path begins with a drive letter. -/
def losesHost (u : Url) : Bool :=
  kindOf u.scheme == .file && u.authority != some (fileAuthority (.name [])) &&
    beginsWithDrive u.path.items

theorem head?_ne_slash (h : AfterPath rest) : rest.head? ≠ some '/' := by
  intro hHead
  exact absurd (h '/' hHead) (by decide)

theorem resolve_scheme (hScheme : IsScheme scheme) (s : List Char) :
    resolve none (scheme ++ ':' :: s) = absolute none scheme s := by
  simp only [resolve, scheme?_write hScheme]

theorem plainUrl_of_head? {s : List Char} (h : s.head? ≠ some '/') :
    plainUrl scheme s =
      .ok (build .plain scheme none (.bare ∘ Percent.encode Percent.isPrintable) s) := by
  unfold plainUrl
  split
  case h_1 => exact absurd rfl h
  case h_2 => exact absurd rfl h
  case h_3 => rfl

theorem plainUrl_slash {s : List Char} (h : s.head? ≠ some '/') :
    plainUrl scheme ('/' :: s) = .ok (build .plain scheme none (follow .plain []) s) := by
  unfold plainUrl
  split
  case h_1 hEq =>
    cases hEq
    exact absurd rfl h
  case h_2 hEq =>
    cases hEq
    rfl
  case h_3 hSlash => exact absurd rfl (hSlash s)

theorem resolve_bare {text : List Char} (hScheme : IsScheme scheme) (hKind : kindOf scheme = .plain)
    (hText : IsBare text) (hRest : AfterPath rest) :
    resolve none (scheme ++ ':' :: (text ++ rest)) =
      .ok (finish .plain ⟨scheme, none, .bare text, none, none⟩ rest) := by
  have hHead : (text ++ rest).head? ≠ some '/' := by
    cases text with
    | nil => exact head?_ne_slash hRest
    | cons c text => exact hText.slashless
  have hSame : Percent.encode Percent.isPrintable text = text :=
    Percent.encode_eq_self hText.printable
  rw [resolve_scheme hScheme, absolute, hKind]
  simp only
  rw [plainUrl_of_head? hHead, build_write hText.path hRest, Function.comp_apply, hSame]

/-- A dot before a path does not count. -/
theorem follow_dot {items : List (List Char)} (hPath : IsPath .plain items) :
    follow .plain [] ('.' :: Path.write (.segments items)) = .segments items := by
  obtain ⟨first, more, rfl⟩ := List.exists_cons_of_ne_nil hPath.ne_nil
  have hSplit : split SchemeKind.plain.isSlash ('.' :: Path.write (.segments (first :: more))) =
      ['.'] :: split SchemeKind.plain.isSlash (first ++ more.flatMap ('/' :: ·)) :=
    split_append (List.forall_mem_singleton.mpr (by decide)) (by decide)
  have hDot : Percent.encode Percent.inPath ['.'] = ['.'] :=
    Percent.encode_eq_self (List.forall_mem_singleton.mpr (by decide))
  have hWalk : walk .plain [] (['.'] :: first :: more) = first :: more := by
    rw [walk, if_neg (by decide), if_pos (by decide)]
    · exact walk_of_isSegment hPath.segments fun hFile => absurd hFile (by decide)
    · exact List.cons_ne_nil _ _
  have hSegments : segmentsFrom .plain [] ('.' :: Path.write (.segments (first :: more))) =
      first :: more := by
    rw [segmentsFrom, hSplit, List.map_cons, hDot, map_split_write hPath.segments, hWalk]
  exact follow_eq hPath (.inl hSegments)

/-- A path without a host before it. One that would read as a host is kept apart by a dot. -/
theorem plainUrl_rooted {items : List (List Char)} (hPath : IsPath .plain items)
    (hRest : AfterPath rest) :
    plainUrl scheme ((Url.mk scheme none (.segments items) none none).writeAuthority ++
        Path.write (.segments items) ++ rest) =
      .ok (finish .plain ⟨scheme, none, .segments items, none, none⟩ rest) := by
  have hEnds : ∀ c ∈ Path.write (.segments items), endsPath c = false := fun c =>
    endsPath_of_mem_write hPath.segments
  have hDot := follow_dot hPath
  have hFollow := follow_write hPath fun hFile => absurd hFile (by decide)
  obtain ⟨first, more, rfl⟩ := List.exists_cons_of_ne_nil hPath.ne_nil
  -- Only an empty segment with others after it needs the dot.
  have hAlone : first ≠ [] ∨ more = [] →
      plainUrl scheme ('/' :: (first ++ more.flatMap ('/' :: ·) ++ rest)) =
        .ok (finish .plain ⟨scheme, none, .segments (first :: more), none, none⟩ rest) := by
    intro hFirst
    have hHead : (first ++ more.flatMap ('/' :: ·) ++ rest).head? ≠ some '/' := by
      cases first with
      | nil =>
        obtain rfl := hFirst.resolve_left (fun hNe => hNe rfl)
        exact head?_ne_slash hRest
      | cons c first =>
        rintro ⟨⟩
        exact absurd ((hPath.segments _ List.mem_cons_self).slashless '/' List.mem_cons_self)
          (by decide)
    have hTail : ∀ c ∈ first ++ more.flatMap ('/' :: ·), endsPath c = false := fun c hMem =>
      hEnds c (List.mem_cons_of_mem _ hMem)
    have hSame : follow .plain [] (first ++ more.flatMap ('/' :: ·)) = .segments (first :: more) :=
      hFollow
    rw [plainUrl_slash hHead, build_write hTail hRest, hSame]
  cases first with
  | cons c first => exact hAlone (Or.inl (List.cons_ne_nil c first))
  | nil =>
    cases more with
    | nil => exact hAlone (Or.inr rfl)
    | cons next more =>
      have hText : ∀ c ∈ '.' :: Path.write (.segments ([] :: next :: more)), endsPath c = false :=
        List.forall_mem_cons.mpr ⟨by decide, hEnds⟩
      show plainUrl scheme ('/' :: ('.' :: Path.write (.segments ([] :: next :: more)) ++ rest)) = _
      rw [plainUrl_slash (by simp), build_write hText hRest, hDot]

/-- Where an authority ends, a path begins, or what follows a path. -/
theorem outsidePath_head? {items : List (List Char)} (hRest : AfterPath rest) :
    ∀ c ∈ (Path.write (.segments items) ++ rest).head?, Host.outsidePath kind c = false := by
  cases items with
  | nil =>
    intro c hMem
    rw [Host.outsidePath, hRest c hMem, Bool.or_true]
    rfl
  | cons first more =>
    rintro c ⟨⟩
    cases kind <;> decide

theorem afterSlashes_write {a : Authority} {items : List (List Char)} (hKind : kind ≠ .file)
    (ha : a.Written kind scheme) (hPath : IsPath kind items ∨ (kind = .plain ∧ items = []))
    (hRest : AfterPath rest) :
    afterSlashes kind scheme (a.write ++ Path.write (.segments items) ++ rest) =
      .ok (finish kind ⟨scheme, some a, .segments items, none, none⟩ rest) := by
  have hEnds : ∀ c ∈ Path.write (.segments items), endsPath c = false := by
    rcases hPath with hPath | ⟨-, rfl⟩
    · exact fun c => endsPath_of_mem_write hPath.segments
    · exact fun _ hMem => nomatch hMem
  have hItems : (if kind = .plain && (Path.write (.segments items)).isEmpty then .segments []
      else follow kind [] (afterSlash kind (Path.write (.segments items)))) =
        Path.segments items := by
    rcases hPath with hPath | ⟨rfl, rfl⟩
    · obtain ⟨first, more, rfl⟩ := List.exists_cons_of_ne_nil hPath.ne_nil
      have hWritten : ¬ (decide (kind = .plain) &&
          (Path.write (.segments (first :: more))).isEmpty) = true := by
        rw [Bool.and_eq_true]
        rintro ⟨-, ⟨⟩⟩
      rw [if_neg hWritten, follow_write hPath fun hFile => absurd hFile hKind]
    · rfl
  rw [afterSlashes, List.append_assoc, authorityAt_write ha (outsidePath_head? hRest)]
  show Except.ok (build kind scheme (some a) _ (Path.write (.segments items) ++ rest)) = _
  rw [build_write hEnds hRest, hItems]

/-- Two slashes stand before an authority. -/
theorem takeWhile_slashes {s : List Char} (h : ∀ c ∈ s.head?, c ≠ '/' ∧ c ≠ '\\') :
    (('/' :: '/' :: s).takeWhile fun c => c == '/' || c == '\\').length = 2 := by
  cases s with
  | nil => rfl
  | cons c s =>
    obtain ⟨hSlash, hBackslash⟩ := h c rfl
    simp [hSlash, hBackslash]

theorem resolve_hosted {a : Authority} {items : List (List Char)} (hScheme : IsScheme scheme)
    (hKind : kindOf scheme ≠ .file) (ha : a.Written (kindOf scheme) scheme)
    (hPath : IsPath (kindOf scheme) items ∨ (kindOf scheme = .plain ∧ items = []))
    (hRest : AfterPath rest) :
    resolve none
        (scheme ++ ':' :: '/' :: '/' :: (a.write ++ Path.write (.segments items) ++ rest)) =
      .ok (finish (kindOf scheme) ⟨scheme, some a, .segments items, none, none⟩ rest) := by
  have hAfter := afterSlashes_write hKind ha hPath hRest
  rw [resolve_scheme hScheme, absolute]
  cases hCase : kindOf scheme with
  | file => exact absurd hCase hKind
  | plain =>
    rw [hCase] at hAfter
    exact hAfter
  | special =>
    rw [hCase] at hAfter ha
    have hHead : ∀ c ∈ (a.write ++ Path.write (.segments items) ++ rest).head?,
        c ≠ '/' ∧ c ≠ '\\' := by
      intro c hMem
      obtain ⟨d, ds, hCons⟩ := List.exists_cons_of_ne_nil (Authority.write_ne_nil ha)
      rw [hCons] at hMem
      obtain rfl : d = c := Option.some.inj hMem
      have hOutside := outsidePath_of_mem_authority ha (hCons ▸ List.mem_cons_self)
      refine ⟨?_, ?_⟩
      · rintro rfl
        cases hOutside
      · rintro rfl
        cases hOutside
    simp only [Option.filter_none, takeWhile_slashes hHead]
    exact hAfter

/-! ## Files that are read again -/

theorem isDrive_of_mem {s : List Char} (h : ∀ c ∈ s, c ≠ ':' ∧ c ≠ '|') : isDrive s = false := by
  unfold isDrive
  split
  case h_1 a b =>
    obtain ⟨hColon, hBar⟩ := h b (by simp)
    simp [hColon, hBar]
  case h_2 => rfl

theorem isDrive_write {host : Host} (h : host.Written .file) : isDrive host.write = false := by
  have hName : (∀ groups, host ≠ .ipv6 groups) → isDrive host.write = false := fun hOther =>
    isDrive_of_mem fun c hMem => by
      have hMark := Host.notMem_hostMarks h hOther c hMem
      have hNe : ∀ d ∈ hostMarks, c ≠ d := fun d hd hEq => hMark (hEq ▸ hd)
      exact ⟨hNe _ (by decide), hNe _ (by decide)⟩
  cases host with
  | name text => exact hName fun _ => Host.noConfusion
  | ipv4 address => exact hName fun _ => Host.noConfusion
  | ipv6 groups =>
    rw [Host.write, Ipv6.write_eq]
    unfold isDrive
    split
    case h_1 a b hEq =>
      obtain ⟨rfl, -⟩ := List.cons.inj hEq
      rfl
    case h_2 => rfl

/-- The host of a file is read as it was written. -/
theorem fileHost_write {host : Host} (h : IsFileHost host)
    (hRest : ∀ c ∈ rest.head?, Host.outsidePath .file c = false) :
    fileHost (host.write ++ rest) = .ok (host, rest) := by
  have hName : ∀ name : List Char, (∀ c ∈ name, Host.outsidePath .file c = true) →
      (name ++ rest).takeWhile (fun c => !(SchemeKind.file.isSlash c || endsPath c)) = name :=
    fun _ hAll => takeWhile_of_ends (P := Host.outsidePath .file) hAll hRest
  cases h with
  | here =>
    have hEmpty := hName [] (fun _ hMem => absurd hMem List.not_mem_nil)
    rw [Host.write, fileHost, hEmpty]
    rfl
  | there hHost hOther =>
    have hWrite := hName host.write fun c hMem => (Host.outsidePath_of_notMem_serverMarks .file
      (Host.notMem_serverMarks hHost hMem)).1
    have hDrop : (host.write ++ rest).drop host.write.length = rest := List.drop_left
    rw [fileHost, hWrite]
    simp only [isDrive_write hHost, Bool.false_eq_true, if_false]
    split
    case isTrue hEmpty =>
      exact absurd (List.isEmpty_iff.mp hEmpty) (Host.write_ne_nil (by decide) hHost)
    case isFalse =>
      rw [Host.specialHost_write hHost (by decide), hDrop]
      exact congrArg (fun h => Except.ok (h, rest)) (if_neg hOther)

theorem fileAuthority_write (host : Host) : (fileAuthority host).write = host.write := by
  rw [Authority.write, fileAuthority, Authority.credentials]
  simp

/-- A file up to its query. -/
def fileStem (host : Host) (items : List (List Char)) : List Char :=
  "file".toList ++ ':' :: '/' :: '/' :: (host.write ++ Path.write (.segments items))

theorem stem_file (host : Host) (items : List (List Char)) (query fragment : Option (List Char)) :
    (Url.mk "file".toList (some (fileAuthority host)) (.segments items) query fragment).stem =
      fileStem host items := by
  rw [fileStem, ← fileAuthority_write host]
  rfl

theorem losesHost_file (host : Host) (items : List (List Char))
    (query fragment : Option (List Char)) :
    (Url.mk "file".toList (some (fileAuthority host)) (.segments items) query fragment).losesHost =
      (decide (host ≠ .name []) && beginsWithDrive items) := by
  have hKind : kindOf "file".toList = .file := rfl
  have hSame : fileAuthority host = fileAuthority (.name []) ↔ host = .name [] := by
    simp [fileAuthority]
  simp only [losesHost, hKind, Path.items, bne, beq_self_eq_true, Bool.true_and]
  congr 1
  simp [hSame, beq_eq_decide]

/-- A host stands where a path would begin without it. -/
theorem fileStem_ne {host : Host} {items items' : List (List Char)} (h : IsFileHost host)
    (hNamed : host ≠ .name []) (hPath : items' ≠ []) (s t : List Char) :
    fileStem (.name []) items' ++ s ≠ fileStem host items ++ t := by
  intro hSame
  obtain ⟨first, more, rfl⟩ := List.exists_cons_of_ne_nil hPath
  cases h with
  | here => exact hNamed rfl
  | there hHost =>
    obtain ⟨c, rest, hWrite⟩ := List.exists_cons_of_ne_nil (Host.write_ne_nil (by decide) hHost)
    have hOutside := (Host.outsidePath_of_notMem_serverMarks .file
      (Host.notMem_serverMarks hHost (hWrite ▸ List.mem_cons_self))).1
    have hEmpty : (Host.name []).write = [] := rfl
    simp only [fileStem, hWrite, hEmpty, Path.write, List.flatMap_cons, List.nil_append,
      List.append_assoc, List.cons_append, List.append_cancel_left_eq, List.cons.injEq,
      true_and] at hSame
    obtain rfl : '/' = c := hSame.1
    cases hOutside

theorem isDrive_of_isProperDrive {segment : List Char} (h : isProperDrive segment = true) :
    isDrive segment = true := by
  unfold isProperDrive at h
  split at h
  case h_1 a b =>
    obtain ⟨hLetter, hColon⟩ := Bool.and_eq_true_iff.mp h
    rw [isDrive, hLetter, hColon]
    rfl
  case h_2 => cases h

/-- A file without a host is read as it was written. -/
theorem fileUrl_write {items : List (List Char)} (hPath : IsPath .file items)
    (hRest : AfterPath rest) :
    fileUrl [] (Path.write (.segments items) ++ rest) =
      finish .file ⟨"file".toList, some (fileAuthority (.name [])), .segments items, none, none⟩
        rest := by
  rw [fileUrl, build_write (fun c => endsPath_of_mem_write hPath.segments) hRest,
    follow_whole hPath]

/-- A file on a host is read with the segments that are read from the text of its path, and
without the host if a drive letter comes first. -/
theorem hostedFile_write (host : Host) {items found : List (List Char)} (hPath : IsPath .file items)
    (hSegments : segmentsFrom .file [] (afterSlash .file (Path.write (.segments items))) = found)
    (hFound : IsPath .file found) (hRest : AfterPath rest) :
    hostedFile host (afterSlash .file (Path.write (.segments items) ++ rest)) =
      finish .file ⟨"file".toList,
        some (fileAuthority (if found.head?.any isProperDrive then .name [] else host)),
        .segments found, none, none⟩ rest := by
  obtain ⟨first, more, rfl⟩ := List.exists_cons_of_ne_nil hPath.ne_nil
  rw [afterSlash_write] at hSegments
  have hEnds : ∀ c ∈ first ++ more.flatMap ('/' :: ·), endsPath c = false := fun c hMem =>
    endsPath_of_mem_write hPath.segments (List.mem_cons_of_mem '/' hMem)
  show hostedFile host (first ++ more.flatMap ('/' :: ·) ++ rest) = _
  rw [hostedFile, (cut_path hEnds hRest).1, build_write hEnds hRest, hSegments,
    follow_eq hFound (.inl hSegments)]

theorem resolve_file {host : Host} (hHost : IsFileHost host) (items : List (List Char))
    (hRest : AfterPath rest) :
    resolve none (fileStem host items ++ rest) =
      .ok (if host = .name [] then fileUrl [] (Path.write (.segments items) ++ rest)
        else hostedFile host (afterSlash .file (Path.write (.segments items) ++ rest))) := by
  have hAbsolute : ∀ s, absolute none "file".toList s = fileFrom none s := fun _ => rfl
  have hSlashes : ∀ s, fileFrom none ('/' :: '/' :: s) = (fileHost s).bind fun found =>
      .ok (if found.1 = .name [] then fileUrl [] found.2
        else hostedFile found.1 (afterSlash .file found.2)) := fun _ => rfl
  rw [fileStem, List.append_assoc, List.cons_append, List.cons_append, List.cons_append,
    resolve_scheme isScheme_file, hAbsolute, hSlashes, List.append_assoc,
    fileHost_write hHost (outsidePath_head? hRest)]
  rfl

/-- A URL up to its query is read as it was written, whatever query and fragment follow. -/
theorem resolve_stem {u : Url} (h : u.Written) (hKeeps : u.losesHost = false)
    (hRest : AfterPath rest) :
    resolve none (u.stem ++ rest) = .ok (finish (kindOf u.scheme) u rest) := by
  cases h with
  | bare hScheme hKind hText =>
    rw [hKind, stem, List.append_assoc, List.cons_append]
    exact resolve_bare hScheme hKind hText hRest
  | @rooted scheme items query fragment hScheme hKind hPath =>
    have hAbsolute : ∀ s, absolute none scheme s = plainUrl scheme s := fun s => by
      rw [absolute, hKind]
    rw [hKind, stem, List.append_assoc, List.cons_append, resolve_scheme hScheme, hAbsolute]
    exact plainUrl_rooted hPath hRest
  | hosted hScheme hKind hAuthority hPath =>
    rw [stem, List.append_assoc, List.cons_append]
    exact resolve_hosted hScheme hKind hAuthority hPath hRest
  | @file host items query fragment hHost hPath =>
    have hKind : kindOf "file".toList = .file := rfl
    rw [hKind, stem_file, resolve_file hHost items hRest]
    split
    case isTrue hNone =>
      rw [hNone, fileUrl_write hPath hRest]
      rfl
    case isFalse hNamed =>
      rw [losesHost_file, decide_eq_true hNamed, Bool.true_and] at hKeeps
      have hProper : items.head?.any isProperDrive = false := by
        obtain ⟨first, more, rfl⟩ := List.exists_cons_of_ne_nil hPath.ne_nil
        exact Bool.eq_false_iff.mpr fun hFirst =>
          absurd (isDrive_of_isProperDrive hFirst) (Bool.eq_false_iff.mp hKeeps)
      rw [hostedFile_write host hPath (segmentsFrom_write hPath fun _ => hKeeps) hPath hRest,
        hProper]
      rfl

/-- A file on a host whose path begins with a drive letter is read without the host, and with a
colon after the letter. -/
theorem resolve_of_losesHost {u : Url} (h : u.Written) (hLoses : u.losesHost = true)
    (hRest : AfterPath rest) :
    ∃ host a items items', IsFileHost host ∧ host ≠ .name [] ∧ u.stem = fileStem host items ∧
      resolve none (u.stem ++ rest) =
        .ok (finish .file ⟨"file".toList, some (fileAuthority (.name [])),
          .segments ([a, ':'] :: items'), none, none⟩ rest) := by
  have hKind : kindOf u.scheme = .file := by
    rw [losesHost, Bool.and_assoc, Bool.and_eq_true, beq_iff_eq] at hLoses
    exact hLoses.1
  cases h with
  | bare _ hPlain => exact absurd (hKind.symm.trans hPlain) (by decide)
  | rooted _ hPlain => exact absurd (hKind.symm.trans hPlain) (by decide)
  | hosted _ hOther => exact absurd hKind hOther
  | @file host items query fragment hHost hPath =>
    rw [losesHost_file, Bool.and_eq_true, decide_eq_true_iff] at hLoses
    obtain ⟨hNamed, hBegins⟩ := hLoses
    obtain ⟨a, b, more, rfl, hDrive⟩ := exists_of_beginsWithDrive hBegins
    have hLetter : isLetter a = true := (Bool.and_eq_true_iff.mp hDrive).1
    have hFound : IsPath .file ([a, ':'] :: more) :=
      ⟨List.cons_ne_nil _ _, List.forall_mem_cons.mpr ⟨isSegment_drive hLetter,
        (List.forall_mem_cons.mp hPath.segments).2⟩, fun _ => .inr (by simp)⟩
    have hProper : ([a, ':'] :: more).head?.any isProperDrive = true := by
      simp [isProperDrive, hLetter]
    refine ⟨host, a, [a, b] :: more, more, hHost, hNamed, stem_file .., ?_⟩
    rw [stem_file, resolve_file hHost _ hRest, if_neg hNamed,
      hostedFile_write host hPath (segmentsFrom_drive hPath hDrive) hFound hRest, hProper]
    rfl

end TripPlanner.Url
