import TripPlanner.Proofs.Url.Form
import TripPlanner.Proofs.Url.Reading
import Mathlib.Data.List.DropRight

/-!
# URLs with pairs read back

A URL that has been read is written in printable characters, and none of them is tidied away. So it
is read as it was written once it has pairs (`ofText_withPairs`). The one exception is a file on a
host whose path begins with a drive letter: it is read as a file without a host, which no pairs make
the same text (`ofText_of_losesHost`).
-/

namespace TripPlanner.Url

open Text

variable {u : Url} {ps : List (List Char × List Char)}

/-! ## Tidy texts -/

/-- Neither tabs nor line ends are printable. -/
theorem filter_printable {s : List Char} (h : ∀ c ∈ s, Percent.isPrintable c = true) :
    s.filter (fun c => !(c == '\t' || c == '\n' || c == '\r')) = s := by
  refine List.filter_eq_self.mpr fun c hMem => ?_
  have hOther : ∀ d, Percent.isPrintable d = false → (c == d) = false := fun d hd =>
    beq_eq_false_iff_ne.mpr fun hEq => by simp [← hEq, h c hMem] at hd
  rw [hOther '\t' (by decide), hOther '\n' (by decide), hOther '\r' (by decide)]
  rfl

/-- A text in printable characters is tidy unless a blank stands at one of its ends. -/
theorem tidy_eq_self {s : List Char} (hPrintable : ∀ c ∈ s, Percent.isPrintable c = true)
    (hFirst : s.head? ≠ some ' ') (hLast : s.getLast? ≠ some ' ') : tidy s = s := by
  have hEdge : ∀ c ∈ s, decide (c ≤ ' ') = true → c = ' ' := by
    intro c hMem hLe
    have hLow : 32 ≤ c.toNat := (Percent.isPrintable_iff.mp (hPrintable c hMem)).1
    have hHigh : c.toNat ≤ 32 := of_decide_eq_true hLe
    exact Char.toNat_inj.mp (Nat.le_antisymm hHigh hLow)
  have hStart : s.dropWhile (· ≤ ' ') = s :=
    List.dropWhile_eq_self_iff.mpr fun hLt hLe => hFirst <| by
      rw [List.head?_eq_getElem?, List.getElem?_eq_getElem hLt, hEdge _ (List.getElem_mem hLt) hLe]
  have hEnd : s.rdropWhile (· ≤ ' ') = s :=
    List.rdropWhile_eq_self_iff.mpr fun hNe hLe => hLast <| by
      rw [List.getLast?_eq_some_getLast hNe, hEdge _ (List.getLast_mem hNe) hLe]
  show (((s.dropWhile (· ≤ ' ')).rdropWhile (· ≤ ' ')).filter _) = s
  rw [hStart, hEnd, filter_printable hPrintable]

/-! ## Printable characters -/

theorem isPrintable_of_inPath {c : Char} (h : Percent.inPath c = true) :
    Percent.isPrintable c = true := (Bool.and_eq_true _ _ ▸ h).1

theorem isPrintable_of_isSchemePart {c : Char} (h : isSchemePart c = true) :
    Percent.isPrintable c = true :=
  of_ascii (P := fun c => isSchemePart c = true → Percent.isPrintable c = true) (by decide)
    (toNat_of_isSchemePart h) h

theorem isPrintable_of_mem_path {kind : SchemeKind} {items : List (List Char)}
    (h : ∀ s ∈ items, IsSegment kind s) {c : Char} (hMem : c ∈ Path.write (.segments items)) :
    Percent.isPrintable c = true := by
  obtain ⟨s, hItem, hMem⟩ := List.mem_flatMap.mp hMem
  rcases List.mem_cons.mp hMem with rfl | hMem
  · decide
  · exact isPrintable_of_inPath ((h s hItem).admitted c hMem)

theorem isPrintable_of_mem_writeAuthority (h : u.Written) {c : Char} (hMem : c ∈ u.writeAuthority) :
    Percent.isPrintable c = true := by
  have hMarked : ∀ {a : List Char}, (∀ c ∈ a, Percent.isPrintable c = true) → c ∈ '/' :: '/' :: a →
      Percent.isPrintable c = true := fun hAll hMem =>
    List.forall_mem_cons.mpr ⟨by decide, List.forall_mem_cons.mpr ⟨by decide, hAll⟩⟩ c hMem
  cases h with
  | bare => cases hMem
  | rooted =>
    rw [writeAuthority] at hMem
    split at hMem
    case h_1 hNone => cases hNone
    case h_2 =>
      have hAll : ∀ c ∈ ['/', '.'], Percent.isPrintable c = true :=
        List.all_iff_forall_prop.mp (by decide)
      exact hAll c hMem
    case h_3 => cases hMem
  | hosted _ _ hAuthority =>
    exact hMarked (fun _ => isPrintable_of_mem_authority hAuthority) hMem
  | @file host _ _ _ hFile =>
    have hWrite : c ∈ '/' :: '/' :: host.write := fileAuthority_write host ▸ hMem
    cases hFile with
    | here => exact hMarked (fun _ hNone => absurd hNone List.not_mem_nil) hWrite
    | there hHost => exact hMarked (fun _ => Host.isPrintable_of_mem_write hHost) hWrite

/-- What has been read is written in printable characters. -/
theorem isPrintable_of_mem_stem (h : u.Written) {c : Char} (hMem : c ∈ u.stem) :
    Percent.isPrintable c = true := by
  rcases List.mem_append.mp hMem with hMem | hMem
  · exact isPrintable_of_isSchemePart (h.isScheme.parts c hMem).1
  · rcases List.mem_cons.mp hMem with rfl | hMem
    · decide
    · rcases List.mem_append.mp hMem with hMem | hMem
      · exact isPrintable_of_mem_writeAuthority h hMem
      · cases h with
        | bare _ _ hText => exact hText.printable c hMem
        | rooted _ _ hPath => exact isPrintable_of_mem_path hPath.segments hMem
        | hosted _ _ _ hPath =>
          rcases hPath with hPath | ⟨-, rfl⟩
          · exact isPrintable_of_mem_path hPath.segments hMem
          · cases hMem
        | file _ hPath => exact isPrintable_of_mem_path hPath.segments hMem

theorem head?_stem (h : u.Written) (rest : List Char) : (u.stem ++ rest).head? ≠ some ' ' := by
  obtain ⟨first, rest, hScheme, hLetter⟩ := h.isScheme.letter
  rw [stem, hScheme]
  rintro ⟨⟩
  exact absurd hLetter (by decide)

/-! ## Queries of pairs -/

/-- What stands in a query of pairs is admitted in all queries. -/
theorem queryCharacters_of_mem_write (kind : SchemeKind) {c : Char} (hMem : c ∈ Form.write ps) :
    queryCharacters kind c = true ∧ c ≠ '#' ∧ c ≠ ' ' := by
  have hAll : ∀ n < 128, Form.admits (Char.ofNat n) = true → queryCharacters kind (Char.ofNat n) =
      true ∧ Char.ofNat n ≠ '#' ∧ Char.ofNat n ≠ ' ' := by
    cases kind <;> decide
  rcases Form.mem_write hMem with hAdmits | rfl | rfl
  · exact of_ascii (P := fun c => Form.admits c = true → queryCharacters kind c = true ∧ c ≠ '#' ∧
      c ≠ ' ') hAll (Form.toNat_of_admits hAdmits) hAdmits
  · cases kind <;> decide
  · cases kind <;> decide

theorem isPrintable_of_mem_write {c : Char} (hMem : c ∈ Form.write ps) :
    Percent.isPrintable c = true :=
  (Bool.and_eq_true _ _ ▸ (queryCharacters_of_mem_write .plain hMem).1).1

/-- A query of pairs is read as it was written. -/
theorem finish_pairs (kind : SchemeKind) (u : Url) (ps : List (List Char × List Char)) :
    finish kind u ('?' :: Form.write ps) =
      { u with query := some (Form.write ps), fragment := none } := by
  have hMarks : ∀ c ∈ '?' :: Form.write ps, decide (c ≠ '#') = true :=
    List.forall_mem_cons.mpr
      ⟨by decide, fun _ hMem => decide_eq_true (queryCharacters_of_mem_write kind hMem).2.1⟩
  have hQuery : queryAt kind ('?' :: Form.write ps) = some (Form.write ps) := by
    rw [queryAt, List.takeWhile_eq_self_iff.mpr (List.forall_mem_cons.mp hMarks).2,
      Percent.encode_eq_self fun _ hMem => (queryCharacters_of_mem_write kind hMem).1]
  have hFragment : fragmentIn ('?' :: Form.write ps) = none := by
    rw [fragmentIn, List.dropWhile_eq_nil_iff.mpr hMarks]
  rw [finish, hQuery, hFragment]

/-! ## URLs with pairs -/

theorem write_withPairs (u : Url) (ps : List (List Char × List Char)) :
    (u.withPairs ps).write = (u.withPairs ps).stem ++ '?' :: Form.write ps := by
  rw [write, withPairs, stem, writePart, writePart, List.append_nil]
  simp

theorem isBare_trimmed {text : List Char} (h : IsBare text) :
    IsBare (text.reverse.dropWhile (· = ' ')).reverse := by
  have hPrefix : (text.reverse.dropWhile (· = ' ')).reverse <+: text :=
    List.rdropWhile_prefix (· = ' ') text
  refine ⟨fun c hMem => h.printable c (hPrefix.subset hMem),
    fun c hMem => h.path c (hPrefix.subset hMem), fun hHead => h.slashless ?_⟩
  obtain ⟨rest, hRest⟩ := hPrefix
  obtain ⟨more, hMore⟩ := List.head?_eq_some_iff.mp hHead
  rw [← hRest, hMore]
  rfl

theorem written_withPairs (h : u.Written) (ps : List (List Char × List Char)) :
    (u.withPairs ps).Written := by
  cases h with
  | bare hScheme hKind hText => exact .bare hScheme hKind (isBare_trimmed hText)
  | rooted hScheme hKind hPath => exact .rooted hScheme hKind hPath
  | hosted hScheme hKind hAuthority hPath => exact .hosted hScheme hKind hAuthority hPath
  | file hFile hPath => exact .file hFile hPath

theorem losesHost_withPairs (u : Url) (ps : List (List Char × List Char)) :
    (u.withPairs ps).losesHost = u.losesHost := by
  have hItems : u.path.trimmed.items = u.path.items := by
    cases u.path <;> rfl
  rw [losesHost, losesHost, withPairs, hItems]

theorem tidy_withPairs (h : u.Written) (ps : List (List Char × List Char)) :
    tidy (u.withPairs ps).text.toList = (u.withPairs ps).stem ++ '?' :: Form.write ps := by
  have hWritten := written_withPairs h ps
  have hQuery : ∀ c ∈ '?' :: Form.write ps, Percent.isPrintable c = true ∧ c ≠ ' ' :=
    List.forall_mem_cons.mpr ⟨by decide, fun c hMem =>
      ⟨isPrintable_of_mem_write hMem, (queryCharacters_of_mem_write .plain hMem).2.2⟩⟩
  rw [text, String.toList_ofList, write_withPairs]
  refine tidy_eq_self (List.forall_mem_append.mpr ⟨fun c => isPrintable_of_mem_stem hWritten,
    fun c hMem => (hQuery c hMem).1⟩) (head?_stem hWritten _) ?_
  rw [List.getLast?_append_of_ne_nil _ (List.cons_ne_nil _ _)]
  exact fun hLast => (hQuery _ (List.mem_of_getLast? hLast)).2 rfl

/-! ## URLs with pairs -/

theorem afterPath_query (s : List Char) : AfterPath ('?' :: s) := by
  rintro c ⟨⟩
  decide

/-- A URL with pairs is read as it was written, unless it is a file on a host whose path begins with
a drive letter. -/
theorem ofText_withPairs (h : u.Written) (hKeeps : u.losesHost = false)
    (ps : List (List Char × List Char)) :
    ofText (u.withPairs ps).text = .ok (u.withPairs ps) := by
  rw [ofText, tidy_withPairs h, resolve_stem (written_withPairs h ps)
    ((losesHost_withPairs u ps).trans hKeeps) (afterPath_query _), finish_pairs]
  rfl

/-- A file on a host whose path begins with a drive letter is read as another one. -/
theorem ofText_of_losesHost (h : u.Written) (hLoses : u.losesHost = true)
    (ps : List (List Char × List Char)) :
    ∃ v, ofText (u.withPairs ps).text = .ok v ∧
      ∀ ps', (v.withPairs ps').text ≠ (u.withPairs ps).text := by
  obtain ⟨host, a, items, items', hHost, hNamed, hStem, hFound⟩ := resolve_of_losesHost
    (written_withPairs h ps) ((losesHost_withPairs u ps).trans hLoses)
    (afterPath_query (Form.write ps))
  refine ⟨_, by rw [ofText, tidy_withPairs h, hFound], fun ps' hSame => ?_⟩
  have hWrite := String.ofList_injective hSame
  rw [write_withPairs, write_withPairs, hStem, withPairs, finish, Path.trimmed, stem_file] at hWrite
  exact fileStem_ne hHost hNamed (List.cons_ne_nil _ _) _ _ hWrite

/-- A second slash before the drive letter keeps the host, but is not written again. -/
example : (ofText "file://host//C:/x").map text = .ok "file://host/C:/x" ∧
    (ofText "file://host/C:/x").map text = .ok "file:///C:/x" := by decide +kernel

end TripPlanner.Url
