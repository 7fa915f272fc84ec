import TripPlanner.Proofs.Text.Splitting
import TripPlanner.Proofs.Url.Percent
import TripPlanner.Url.Reader
import Mathlib.Tactic.Tauto

/-!
# Paths read back

The segments of a path that has been read are encoded, hold no slash and stand for no other folder
(`IsSegment`). Walking along such segments changes nothing but a drive letter at the start of a file
(`walk_of_isSegment`), so a path is read as it was written (`follow_write`), and that of a file also
with a drive letter if its first slash is read with it (`follow_whole`).
-/

namespace TripPlanner.Url

open Text

/-! ## Segments -/

/-- A segment that is encoded, holds no slash and stands for no other folder. -/
structure IsSegment (kind : SchemeKind) (segment : List Char) : Prop where
  admitted : ∀ c ∈ segment, Percent.inPath c = true
  slashless : ∀ c ∈ segment, kind.isSlash c = false
  notDot : isDot segment = false
  notDoubleDot : isDoubleDot segment = false

variable {kind : SchemeKind} {before segments items : List (List Char)} {segment : List Char}

theorem isSegment_nil : IsSegment kind [] :=
  ⟨fun _ hMem => (nomatch hMem), fun _ hMem => (nomatch hMem), by decide, by decide⟩

theorem isSlash_of_class {P : Char → Bool} (h : P '/' = false ∧ P '\\' = false) {c : Char}
    (hc : P c = true) : kind.isSlash c = false := by
  have hSlash : c ≠ '/' := by
    rintro rfl
    exact Bool.false_ne_true (h.1.symm.trans hc)
  have hBackslash : c ≠ '\\' := by
    rintro rfl
    exact Bool.false_ne_true (h.2.symm.trans hc)
  simp [SchemeKind.isSlash, hSlash, hBackslash]

theorem toNat_of_isLetter {c : Char} (h : isLetter c = true) : c.toNat < 128 := by
  rw [isLetter, Bool.or_eq_true, Bool.and_eq_true, Bool.and_eq_true, decide_eq_true_eq,
    decide_eq_true_eq, decide_eq_true_eq, decide_eq_true_eq] at h
  rcases h with ⟨-, hHigh⟩ | ⟨-, hHigh⟩
  · exact Nat.lt_of_le_of_lt hHigh (by decide)
  · exact Nat.lt_of_le_of_lt hHigh (by decide)

theorem isSegment_drive {a : Char} (h : isLetter a = true) : IsSegment kind [a, ':'] := by
  have hLetter : ∀ c ∈ [a, ':'], Percent.inPath c = true ∧ kind.isSlash c = false := by
    have hAll : ∀ n < 128, isLetter (Char.ofNat n) = true →
        Percent.inPath (Char.ofNat n) = true := by decide
    have hInPath := of_ascii (P := fun c => isLetter c = true → Percent.inPath c = true) hAll
      (toNat_of_isLetter h) h
    refine List.forall_mem_cons.mpr ⟨⟨hInPath, isSlash_of_class (by decide) h⟩, ?_⟩
    refine List.forall_mem_singleton.mpr ⟨by decide, ?_⟩
    cases kind <;> decide
  -- A drive letter ends with a colon, and nothing that stands for a folder does.
  have hOther : ∀ names : List String, (∀ name ∈ names, name.toList.getLast? ≠ some ':') →
      names.contains (String.ofList ([a, ':'].map Char.toLower)) = false := by
    intro names hNames
    refine Bool.eq_false_iff.mpr fun hMem => hNames _ (List.contains_iff_mem.mp hMem) ?_
    rw [String.toList_ofList]
    rfl
  exact ⟨fun c hMem => (hLetter c hMem).1, fun c hMem => (hLetter c hMem).2,
    hOther _ (by decide), hOther _ (by decide)⟩

/-- A segment is placed as it is, or it is a drive letter that gets its colon. -/
theorem place_cases (kind : SchemeKind) (before : List (List Char)) (segment : List Char) :
    place kind before segment = segment ∨
      ∃ a, isLetter a = true ∧ place kind before segment = [a, ':'] := by
  unfold place
  split
  case h_1 a b =>
    split
    case isTrue hDrive =>
      rw [isDrive, Bool.and_eq_true] at hDrive
      exact Or.inr ⟨a, hDrive.1, rfl⟩
    case isFalse => exact Or.inl rfl
  case h_2 => exact Or.inl rfl

theorem place_of_isSegment (h : IsSegment kind segment) :
    IsSegment kind (place kind before segment) := by
  rcases place_cases kind before segment with hSame | ⟨a, hLetter, hDrive⟩
  · rwa [hSame]
  · rw [hDrive]
    exact isSegment_drive hLetter

/-- A segment stays as it is, unless it is a drive letter at the start of a file. -/
theorem place_eq_self (h : kind = .file → before = [] → isDrive segment = false) :
    place kind before segment = segment := by
  unfold place
  split
  case h_1 a b => exact if_neg (Bool.eq_false_iff.mp (h rfl rfl))
  case h_2 => rfl

/-! ## Walks -/

theorem parent_subset (segments : List (List Char)) : parent segments ⊆ segments := by
  unfold parent
  split
  case h_1 last hLast =>
    split
    case isTrue => exact fun _ h => h
    case isFalse => exact List.dropLast_subset _
  case h_2 => exact fun _ h => (nomatch h)

theorem walk_ne_nil (h : segments ≠ []) : walk kind before segments ≠ [] := by
  fun_induction walk kind before segments with
  | case1 before => exact absurd rfl h
  | case2 before last hDouble => simp
  | case3 before last hDouble hDot => simp
  | case4 before last hDouble hDot => simp
  | case5 before segment rest hMore hDouble ih => exact ih hMore
  | case6 before segment rest hMore hDouble hDot ih => exact ih hMore
  | case7 before segment rest hMore hDouble hDot ih => exact ih hMore

theorem forall_mem_concat {P : List Char → Prop} (hBefore : ∀ s ∈ before, P s) (hLast : P segment) :
    ∀ s ∈ before ++ [segment], P s :=
  List.forall_mem_append.mpr ⟨hBefore, List.forall_mem_singleton.mpr hLast⟩

/-- A walk passes segments only. -/
theorem isSegment_of_mem_walk (hBefore : ∀ s ∈ before, IsSegment kind s)
    (h : ∀ s ∈ segments, ∀ c ∈ s, Percent.inPath c = true ∧ kind.isSlash c = false) :
    ∀ s ∈ walk kind before segments, IsSegment kind s := by
  have hParent : ∀ {before : List (List Char)}, (∀ s ∈ before, IsSegment kind s) →
      ∀ s ∈ parent before, IsSegment kind s := fun hBefore s hMem =>
    hBefore s (parent_subset _ hMem)
  have hPlace : ∀ {before : List (List Char)} {segment : List Char},
      (∀ c ∈ segment, Percent.inPath c = true ∧ kind.isSlash c = false) →
      ¬ isDoubleDot segment = true → ¬ isDot segment = true →
      IsSegment kind (place kind before segment) := fun hChars hDouble hDot =>
    place_of_isSegment ⟨fun c hMem => (hChars c hMem).1, fun c hMem => (hChars c hMem).2,
      Bool.eq_false_iff.mpr hDot, Bool.eq_false_iff.mpr hDouble⟩
  fun_induction walk kind before segments with
  | case1 before => exact hBefore
  | case2 before last hDouble => exact forall_mem_concat (hParent hBefore) isSegment_nil
  | case3 before last hDouble hDot => exact forall_mem_concat hBefore isSegment_nil
  | case4 before last hDouble hDot =>
    exact forall_mem_concat hBefore (hPlace (h last List.mem_cons_self) hDouble hDot)
  | case5 before segment rest hMore hDouble ih =>
    exact ih (hParent hBefore) (List.forall_mem_cons.mp h).2
  | case6 before segment rest hMore hDouble hDot ih =>
    exact ih hBefore (List.forall_mem_cons.mp h).2
  | case7 before segment rest hMore hDouble hDot ih =>
    obtain ⟨hHead, hTail⟩ := List.forall_mem_cons.mp h
    exact ih (forall_mem_concat hBefore (hPlace hHead hDouble hDot)) hTail

/-- Whether a path begins with a drive letter. -/
def beginsWithDrive (items : List (List Char)) : Bool := items.head?.any isDrive

theorem exists_of_beginsWithDrive (h : beginsWithDrive items = true) :
    ∃ a b rest, items = [a, b] :: rest ∧ isDrive [a, b] = true := by
  cases items with
  | nil => cases h
  | cons first rest =>
    have hFirst : isDrive first = true := h
    unfold isDrive at hFirst
    split at hFirst
    case h_1 a b => exact ⟨a, b, rest, rfl, h⟩
    case h_2 => cases hFirst

/-- A walk along segments that have been read goes straight ahead. -/
theorem walk_of_isSegment (h : ∀ s ∈ segments, IsSegment kind s)
    (hDrive : kind = .file → before = [] → beginsWithDrive segments = false) :
    walk kind before segments = before ++ segments := by
  have hPlace : ∀ {segment : List Char} {rest before : List (List Char)},
      (kind = .file → before = [] → beginsWithDrive (segment :: rest) = false) →
      place kind before segment = segment := fun hDrive => place_eq_self hDrive
  fun_induction walk kind before segments with
  | case1 before => rw [List.append_nil]
  | case2 before last hDouble =>
    exact absurd hDouble (Bool.eq_false_iff.mp (h last List.mem_cons_self).notDoubleDot)
  | case3 before last hDouble hDot =>
    exact absurd hDot (Bool.eq_false_iff.mp (h last List.mem_cons_self).notDot)
  | case4 before last hDouble hDot => rw [hPlace hDrive]
  | case5 before segment rest hMore hDouble ih =>
    exact absurd hDouble (Bool.eq_false_iff.mp (h segment List.mem_cons_self).notDoubleDot)
  | case6 before segment rest hMore hDouble hDot ih =>
    exact absurd hDot (Bool.eq_false_iff.mp (h segment List.mem_cons_self).notDot)
  | case7 before segment rest hMore hDouble hDot ih =>
    have hNe : before ++ [place kind before segment] ≠ [] :=
      List.append_ne_nil_of_right_ne_nil _ (List.cons_ne_nil _ _)
    rw [ih (List.forall_mem_cons.mp h).2 fun _ hNil => absurd hNil hNe, hPlace hDrive,
      List.append_assoc, List.singleton_append]

/-! ## Paths -/

/-- The segments of a path that has been read. Files do not begin with empty segments. -/
structure IsPath (kind : SchemeKind) (items : List (List Char)) : Prop where
  ne_nil : items ≠ []
  segments : ∀ s ∈ items, IsSegment kind s
  full : kind = .file → items = [[]] ∨ items.head? ≠ some []

/-- A path is read as segments. -/
theorem isPath_follow (kind : SchemeKind) (s : List Char) :
    ∃ items, follow kind [] s = .segments items ∧ IsPath kind items := by
  have hSegments : ∀ item ∈ segmentsFrom kind [] s, IsSegment kind item := by
    refine isSegment_of_mem_walk (fun _ hMem => (nomatch hMem)) fun item hItem c hMem => ?_
    obtain ⟨part, hPart, rfl⟩ := List.mem_map.mp hItem
    refine ⟨Percent.admitted_of_mem_encode Percent.admitsEncoding_inPath hMem, ?_⟩
    rcases Percent.mem_encode hMem with ⟨hOld, -⟩ | hEncoding
    · exact (mem_split hPart c hOld).2
    · exact isSlash_of_class (by decide) hEncoding
  have hNe : segmentsFrom kind [] s ≠ [] :=
    walk_ne_nil (by simpa using split_ne_nil kind.isSlash s)
  rw [follow]
  split
  case isFalse hKind => exact ⟨_, rfl, hNe, hSegments, fun hFile => absurd hFile hKind⟩
  case isTrue =>
    split
    case h_1 =>
      refine ⟨_, rfl, List.cons_ne_nil _ _, ?_, fun _ => Or.inl rfl⟩
      exact List.forall_mem_singleton.mpr isSegment_nil
    case h_2 hRest =>
      refine ⟨_, rfl, hRest, fun item hMem => hSegments item (List.dropWhile_subset _ hMem),
        fun _ => Or.inr fun hHead => ?_⟩
      have hFull := List.head?_dropWhile_not (fun item : List Char => item.isEmpty)
        (segmentsFrom kind [] s)
      rw [hHead] at hFull
      simp at hFull

/-- Segments are cut where the slashes were put. -/
theorem split_write {first : List Char} {rest : List (List Char)}
    (h : ∀ s ∈ first :: rest, IsSegment kind s) :
    split kind.isSlash (first ++ rest.flatMap ('/' :: ·)) = first :: rest := by
  have hSlash : kind.isSlash '/' = true := by cases kind <;> decide
  induction rest generalizing first with
  | nil =>
    rw [List.flatMap_nil, List.append_nil]
    exact split_of_none (h first List.mem_cons_self).slashless
  | cons next rest ih =>
    obtain ⟨hHead, hTail⟩ := List.forall_mem_cons.mp h
    rw [List.flatMap_cons, List.cons_append, split_append hHead.slashless hSlash, ih hTail]

/-- Segments that are written with slashes between them are read as they were written. -/
theorem map_split_write {first : List Char} {rest : List (List Char)}
    (h : ∀ s ∈ first :: rest, IsSegment kind s) :
    (split kind.isSlash (first ++ rest.flatMap ('/' :: ·))).map (Percent.encode Percent.inPath) =
      first :: rest := by
  have hSame : ∀ s ∈ first :: rest, Percent.encode Percent.inPath s = s := fun s hMem =>
    Percent.encode_eq_self (h s hMem).admitted
  rw [split_write h]
  exact (List.map_congr_left hSame).trans (List.map_id _)

theorem afterSlash_write (kind : SchemeKind) (first : List Char) (rest : List (List Char)) :
    afterSlash kind (Path.write (.segments (first :: rest))) =
      first ++ rest.flatMap ('/' :: ·) := by
  have hSlash : kind.isSlash '/' = true := by cases kind <;> decide
  rw [Path.write, List.flatMap_cons, List.cons_append, afterSlash, if_pos hSlash]

/-- The segments of a path are read as they were written, unless it begins with a drive letter. -/
theorem segmentsFrom_write (h : IsPath kind items)
    (hDrive : kind = .file → beginsWithDrive items = false) :
    segmentsFrom kind [] (afterSlash kind (Path.write (.segments items))) = items := by
  obtain ⟨first, rest, rfl⟩ := List.exists_cons_of_ne_nil h.ne_nil
  rw [segmentsFrom, afterSlash_write, map_split_write h.segments,
    walk_of_isSegment h.segments fun hFile _ => hDrive hFile, List.nil_append]

/-- A drive letter at the start of a file is read with a colon. -/
theorem segmentsFrom_drive {a b : Char} {rest : List (List Char)}
    (h : IsPath .file ([a, b] :: rest)) (hDrive : isDrive [a, b] = true) :
    segmentsFrom .file [] (afterSlash .file (Path.write (.segments ([a, b] :: rest)))) =
      [a, ':'] :: rest := by
  obtain ⟨hHead, hTail⟩ := List.forall_mem_cons.mp h.segments
  have hPlace : place .file [] [a, b] = [a, ':'] := if_pos hDrive
  rw [segmentsFrom, afterSlash_write, map_split_write h.segments]
  cases rest with
  | nil => rw [walk, hHead.notDoubleDot, hHead.notDot, hPlace]; rfl
  | cons next rest =>
    rw [walk, hHead.notDoubleDot, hHead.notDot, hPlace]
    · exact walk_of_isSegment hTail fun _ hNil => nomatch hNil
    · exact List.cons_ne_nil _ _

/-- Segments that make a path are its segments, also where a file has empty ones before them. -/
theorem follow_eq (h : IsPath kind items) {s : List Char}
    (hSegments : segmentsFrom kind [] s = items ∨
      kind = .file ∧ segmentsFrom kind [] s = [] :: items) :
    follow kind [] s = .segments items := by
  obtain ⟨first, rest, rfl⟩ := List.exists_cons_of_ne_nil h.ne_nil
  rw [follow]
  split
  case isFalse hKind => rw [hSegments.resolve_right fun hFile => hKind hFile.1]
  case isTrue hFile =>
    have hDrop : (segmentsFrom kind [] s).dropWhile (·.isEmpty) =
        (first :: rest).dropWhile (·.isEmpty) := by
      rcases hSegments with hSame | ⟨-, hMore⟩
      · rw [hSame]
      · rw [hMore]
        rfl
    rcases h.full hFile with hEmpty | hFull
    · rw [hDrop, hEmpty]
      rfl
    · have hKept : (first :: rest).dropWhile (·.isEmpty) = first :: rest :=
        List.dropWhile_cons_of_neg fun hEmpty => hFull (congrArg some (List.isEmpty_iff.mp hEmpty))
      rw [hDrop, hKept]

/-- A path is read as it was written, unless it is that of a file and begins with a drive letter. -/
theorem follow_write (h : IsPath kind items)
    (hDrive : kind = .file → beginsWithDrive items = false) :
    follow kind [] (afterSlash kind (Path.write (.segments items))) = .segments items :=
  follow_eq h (.inl (segmentsFrom_write h hDrive))

/-- The path of a file is read as it was written if its first slash is read with it: that makes an
empty segment, and a drive letter after it is left as it is. -/
theorem follow_whole (h : IsPath .file items) :
    follow .file [] (Path.write (.segments items)) = .segments items := by
  have hAll : ∀ s ∈ [] :: items, IsSegment .file s :=
    List.forall_mem_cons.mpr ⟨isSegment_nil, h.segments⟩
  have hSegments : segmentsFrom .file [] (Path.write (.segments items)) = [] :: items := by
    rw [segmentsFrom, ← List.nil_append (Path.write _), Path.write, map_split_write hAll,
      walk_of_isSegment hAll fun _ _ => rfl, List.nil_append]
  exact follow_eq h (.inr ⟨rfl, hSegments⟩)

/-- A path holds nothing that would end it. -/
theorem endsPath_of_mem_write (h : ∀ s ∈ items, IsSegment kind s) {c : Char}
    (hMem : c ∈ Path.write (.segments items)) : endsPath c = false := by
  obtain ⟨s, hItem, hMem⟩ := List.mem_flatMap.mp hMem
  rcases List.mem_cons.mp hMem with rfl | hMem
  · decide
  · rw [endsPath, Bool.or_eq_false_iff, beq_eq_false_iff_ne, beq_eq_false_iff_ne]
    have hAdmitted := (h s hItem).admitted c hMem
    exact ⟨fun hEq => absurd hAdmitted (by rw [hEq]; decide),
      fun hEq => absurd hAdmitted (by rw [hEq]; decide)⟩

end TripPlanner.Url
