import TripPlanner.Proofs.Checks
import TripPlanner.Proofs.Text.Splitting
import TripPlanner.Proofs.Url.Percent
import TripPlanner.Proofs.Url.Punycode
import TripPlanner.Url.Domain

/-!
# Domain names in their one form

A character in its one form has no other (`fold_of_mem_fold`), and neither has a label in ASCII
(`written_of_label?`). So a name in its one form is left as it is when it is read again
(`IsName.toAscii?_eq`), and every name that has been read is in its one form
(`isName_of_toAscii?`).
-/

namespace TripPlanner.Url.Domain

open Text

/-! ## Characters -/

/-- The ranges in which the letters in lower case are. -/
def IsLowered (n : Nat) : Prop :=
  (0x61 ≤ n ∧ n ≤ 0x7A) ∨ (0xE0 ≤ n ∧ n ≤ 0xFF) ∨ (0x101 ≤ n ∧ n ≤ 0x137 ∧ n % 2 = 1) ∨
    (0x13A ≤ n ∧ n ≤ 0x148 ∧ n % 2 = 0) ∨ (0x14B ≤ n ∧ n ≤ 0x177 ∧ n % 2 = 1) ∨
    (0x17A ≤ n ∧ n ≤ 0x17E ∧ n % 2 = 0) ∨ (0x3B1 ≤ n ∧ n ≤ 0x3CB) ∨ (0x430 ≤ n ∧ n ≤ 0x45F) ∨
    (0x461 ≤ n ∧ n ≤ 0x52F ∧ n % 2 = 1) ∨ (0x1E01 ≤ n ∧ n ≤ 0x1EFF ∧ n % 2 = 1)

theorem lower_cases (n : Nat) : lower n = n ∨ IsLowered (lower n) := by
  unfold IsLowered
  fun_cases lower n
  all_goals omega

theorem lower_of_isLowered {n : Nat} (h : IsLowered n) : lower n = n := by
  unfold IsLowered at h
  fun_cases lower n
  all_goals omega

theorem lower_lower (n : Nat) : lower (lower n) = lower n := by
  rcases lower_cases n with hSame | hLowered
  · rw [hSame, hSame]
  · exact lower_of_isLowered hLowered

/-- A code that folding takes for no more than a letter. -/
structure IsUsual (n : Nat) : Prop where
  valid : n.isValidChar
  kept : isIgnored n = false
  single : isStop n = false
  narrow : ¬ (0xFF01 ≤ n ∧ n ≤ 0xFF5E)

theorem isUsual_lower {n : Nat} (h : IsUsual n) : IsUsual (lower n) := by
  rcases lower_cases n with hSame | hLowered
  · rwa [hSame]
  · generalize lower n = m at hLowered
    unfold IsLowered at hLowered
    have hSmall : m < 0x2000 := by omega
    refine ⟨Or.inl (by omega), ?_, ?_, by omega⟩
    · simp only [isIgnored, Bool.or_eq_false_iff, Bool.and_eq_false_iff, beq_eq_false_iff_ne,
        decide_eq_false_iff_not]
      omega
    · simp only [isStop, Bool.or_eq_false_iff, beq_eq_false_iff_ne]
      omega

theorem fold_lower {n : Nat} (h : IsUsual n) :
    fold (Char.ofNat (lower n)) = [Char.ofNat (lower n)] := by
  have hLower := isUsual_lower h
  have hCode : (Char.ofNat (lower n)).toNat = lower n := by
    rw [Char.ofNat, dif_pos hLower.valid]
    rfl
  have hKept : ¬ isIgnored (lower n) = true := Bool.eq_false_iff.mp hLower.kept
  have hSingle : ¬ isStop (lower n) = true := Bool.eq_false_iff.mp hLower.single
  rw [fold, hCode, if_neg hKept, if_neg hSingle, if_neg hLower.narrow, lower_lower]

/-- What a character is folded into, is folded already. -/
theorem fold_of_mem_fold {c d : Char} (h : d ∈ fold c) : fold d = [d] := by
  rw [fold] at h
  split at h
  case isTrue => cases h
  case isFalse hKept =>
    split at h
    case isTrue =>
      rw [List.mem_singleton.mp h]
      decide
    case isFalse hSingle =>
      split at h
      case isTrue hWide =>
        rw [List.mem_singleton.mp h]
        refine fold_lower ⟨Or.inl (by omega), ?_, ?_, by omega⟩
        · simp only [isIgnored, Bool.or_eq_false_iff, Bool.and_eq_false_iff, beq_eq_false_iff_ne,
            decide_eq_false_iff_not]
          omega
        · simp only [isStop, Bool.or_eq_false_iff, beq_eq_false_iff_ne]
          omega
      case isFalse hNarrow =>
        rw [List.mem_singleton.mp h]
        exact fold_lower ⟨c.valid, Bool.eq_false_iff.mpr hKept, Bool.eq_false_iff.mpr hSingle,
          hNarrow⟩

/-- A character that names in their one form may hold. -/
structure Admits (c : Char) : Prop where
  folded : fold c = [c]
  allowed : isForbidden c.toNat = false

theorem flatMap_fold {s : List Char} (h : ∀ c ∈ s, Admits c) : s.flatMap fold = s := by
  induction s with
  | nil => rfl
  | cons c s ih =>
    obtain ⟨hHead, hTail⟩ := List.forall_mem_cons.mp h
    rw [List.flatMap_cons, hHead.folded, ih hTail, List.singleton_append]

theorem any_isForbidden {s : List Char} (h : ∀ c ∈ s, Admits c) :
    s.any (fun c => isForbidden c.toNat) = false :=
  List.any_eq_false.mpr fun c hMem => Bool.eq_false_iff.mp (h c hMem).allowed

/-! ## Labels -/

/-- A label of a name in its one form. -/
structure Written (label : List Char) : Prop where
  admits : ∀ c ∈ label, Admits c
  ascii : isBasic label = true
  whole : '.' ∉ label
  stable : label? label = some label

theorem isBasic_eq_true {label : List Char} (h : ∀ c ∈ label, c.toNat < 0x80) :
    isBasic label = true :=
  List.all_eq_true.mpr fun c hMem => decide_eq_true (h c hMem)

theorem lt_of_isBasic {label : List Char} (h : isBasic label = true) {c : Char} (hMem : c ∈ label) :
    c.toNat < 0x80 :=
  of_decide_eq_true (List.all_eq_true.mp h c hMem)

/-- A label in ASCII without the mark of Punycode stays as it is. -/
theorem label?_of_isBasic {label : List Char} (h : isBasic label = true)
    (hMark : ∀ code, label ≠ 'x' :: 'n' :: '-' :: '-' :: code) : label? label = some label := by
  rw [label?, if_pos h]
  exact hMark

theorem admits_digit {n : Nat} (h : n < 36) : Admits (Punycode.digit n) := by
  have hAll : ∀ n : Fin 36, fold (Punycode.digit n) = [Punycode.digit n] ∧
      isForbidden (Punycode.digit n).toNat = false := by decide
  exact ⟨(hAll ⟨n, h⟩).1, (hAll ⟨n, h⟩).2⟩

theorem lt_digit {n : Nat} (h : n < 36) : (Punycode.digit n).toNat < 0x80 := by
  have hAll : ∀ n : Fin 36, (Punycode.digit n).toNat < 0x80 := by decide
  exact hAll ⟨n, h⟩

theorem admits_mark {c : Char} (h : c ∈ ['x', 'n', '-', '-']) : Admits c := by
  have hAll : ∀ c ∈ ['x', 'n', '-', '-'], fold c = [c] ∧ isForbidden c.toNat = false :=
    List.all_iff_forall_prop.mp (by decide)
  exact ⟨(hAll c h).1, (hAll c h).2⟩

/-- The characters of a label in Punycode. -/
theorem admits_encode {label : List Char} (h : ∀ c ∈ label, Admits c) :
    (∀ c ∈ Punycode.encode label, Admits c) ∧ isBasic (Punycode.encode label) = true := by
  have hMem : ∀ c ∈ Punycode.encode label, Admits c ∧ c.toNat < 0x80 := by
    intro c hMem
    rcases Punycode.mem_encode hMem with rfl | hAscii | ⟨d, hLt, rfl⟩
    · exact ⟨admits_mark (by decide), by decide⟩
    · obtain ⟨hLabel, hLt⟩ := List.mem_filter.mp hAscii
      exact ⟨h c hLabel, of_decide_eq_true hLt⟩
    · exact ⟨admits_digit hLt, lt_digit hLt⟩
  exact ⟨fun c hc => (hMem c hc).1, isBasic_eq_true fun c hc => (hMem c hc).2⟩

theorem dot_notMem_encode {label : List Char} (h : '.' ∉ label) : '.' ∉ Punycode.encode label := by
  intro hMem
  rcases Punycode.mem_encode hMem with hHyphen | hAscii | ⟨d, hLt, hEq⟩
  · cases hHyphen
  · exact h (List.mem_of_mem_filter hAscii)
  · have hAll : ∀ d : Fin 36, '.' ≠ Punycode.digit d := by decide
    exact hAll ⟨d, hLt⟩ hEq

/-- A label that is written in Punycode is read as the same writing. -/
theorem label?_encode {label : List Char} (hAdmits : ∀ c ∈ label, Admits c)
    (hBasic : isBasic label = false) :
    label? (['x', 'n', '-', '-'] ++ Punycode.encode label) =
      some (['x', 'n', '-', '-'] ++ Punycode.encode label) := by
  have hCode := (admits_encode hAdmits).2
  have hChecks : (!isBasic label && decide (label.flatMap fold = label) &&
      !label.any (fun c => isForbidden c.toNat) &&
      decide (Punycode.encode label = Punycode.encode label)) = true := by
    rw [hBasic, any_isForbidden hAdmits, flatMap_fold hAdmits, decide_eq_true rfl,
      decide_eq_true rfl]
    rfl
  show label? ('x' :: 'n' :: '-' :: '-' :: Punycode.encode label) = _
  rw [label?, if_pos hCode, Punycode.decode?_encode]
  exact if_pos hChecks

/-- A label in ASCII has no other form. -/
theorem written_of_label? {label label' : List Char} (hAdmits : ∀ c ∈ label, Admits c)
    (hWhole : '.' ∉ label) (h : label? label = some label') : Written label' := by
  have hLabel := h
  unfold label? at h
  split at h
  case h_1 code =>
    split at h
    case isFalse => cases h
    case isTrue hCode =>
      obtain ⟨decoded, -, h⟩ := Option.bind_eq_some_iff.mp h
      split at h
      case isFalse => cases h
      case isTrue =>
        cases h
        refine ⟨hAdmits, ?_, hWhole, hLabel⟩
        simpa [isBasic] using hCode
  case h_2 =>
    split at h
    case isTrue hBasic =>
      cases h
      exact ⟨hAdmits, hBasic, hWhole, hLabel⟩
    case isFalse hBasic =>
      cases h
      obtain ⟨hCode, hAscii⟩ := admits_encode hAdmits
      refine ⟨?_, ?_, ?_, label?_encode hAdmits (Bool.eq_false_iff.mpr hBasic)⟩
      · exact List.forall_mem_append.mpr ⟨fun _ => admits_mark, hCode⟩
      · rw [isBasic, List.all_append]
        exact hAscii
      · rw [List.mem_append, not_or]
        exact ⟨by decide, dot_notMem_encode hWhole⟩

/-! ## Names -/

/-- A name in its one form. -/
def IsName (s : List Char) : Prop := ∀ label ∈ splitAt '.' s, Written label

theorem admits_dot : Admits '.' := ⟨by decide, by decide⟩

namespace IsName

variable {s : List Char} (h : IsName s)
include h

theorem admits {c : Char} (hMem : c ∈ s) : Admits c ∧ c.toNat < 0x80 := by
  rw [← intercalate_splitAt '.' s] at hMem
  rcases mem_intercalate hMem with rfl | ⟨label, hLabel, hc⟩
  · exact ⟨admits_dot, by decide⟩
  · exact ⟨(h label hLabel).admits c hc, lt_of_isBasic (h label hLabel).ascii hc⟩

/-- A name in its one form is left as it is. -/
theorem toAscii?_eq : toAscii? (Percent.decode s) = some s := by
  have hAdmits : ∀ c ∈ s, Admits c := fun c hMem => (h.admits hMem).1
  have hPercent : '%' ∉ s := fun hMem => by
    have hAllowed := (hAdmits _ hMem).allowed
    revert hAllowed
    decide
  have hLabels : (splitAt '.' s).mapM label? = some ((splitAt '.' s).map id) :=
    Checks.mapM_eq_some_map fun label hMem => (h label hMem).stable
  rw [toAscii?, Percent.decode_of_notMem hPercent, Utf8.decode_encode, flatMap_fold hAdmits]
  simp only [any_isForbidden hAdmits, hLabels, List.map_id, Bool.false_eq_true, if_false,
    Option.bind_eq_bind, Option.bind_some, intercalate_splitAt]

end IsName

theorem isName_intercalate {labels : List (List Char)} (hNe : labels ≠ [])
    (h : ∀ label ∈ labels, Written label) : IsName (['.'].intercalate labels) := by
  rw [IsName, splitAt_intercalate hNe fun label hMem => (h label hMem).whole]
  exact h

/-- A name that has been read is in its one form. -/
theorem isName_of_toAscii? {octets : List UInt8} {s : List Char} (h : toAscii? octets = some s) :
    IsName s := by
  rw [toAscii?] at h
  split at h
  case isTrue => cases h
  case isFalse hAllowed =>
    obtain ⟨labels, hLabels, h⟩ := Option.bind_eq_some_iff.mp h
    cases h
    have hAdmits : ∀ c ∈ (Utf8.decode octets).flatMap fold, Admits c := by
      intro c hMem
      obtain ⟨d, -, hFold⟩ := List.mem_flatMap.mp hMem
      refine ⟨fold_of_mem_fold hFold, ?_⟩
      exact Bool.eq_false_iff.mpr fun hForbidden =>
        hAllowed (List.any_eq_true.mpr ⟨c, hMem, hForbidden⟩)
    refine isName_intercalate ?_ fun label' hMem => ?_
    · intro hNil
      have hLength := Checks.length_of_mapM_eq_some hLabels
      rw [hNil, List.length_nil] at hLength
      exact split_ne_nil _ _ (List.length_eq_zero_iff.mp hLength.symm)
    · obtain ⟨label, hLabel, hEq⟩ := Checks.mem_of_mapM_eq_some hLabels label' hMem
      exact written_of_label? (fun c hc => hAdmits c (mem_split hLabel c hc).1)
        (notMem_of_mem_splitAt hLabel) hEq

end TripPlanner.Url.Domain
