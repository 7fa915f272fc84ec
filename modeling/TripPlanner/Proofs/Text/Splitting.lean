import TripPlanner.Text.Split
import Mathlib.Data.List.Basic

/-!
# Texts that are split

A text is split where a separator was put between its parts (`split_append`), so parts that hold no
separator are found again in what they are joined to (`splitAt_intercalate`). No part holds a
separator (`mem_split`). A stretch of characters of one kind is cut off where a character of another
kind follows (`takeWhile_of_ends`, `dropWhile_of_ends`).
-/

namespace TripPlanner.Text

/-! ## Stretches of one kind -/

section Stretches

variable {P : Char → Bool} {s rest : List Char}

theorem takeWhile_of_ends (h : ∀ c ∈ s, P c = true) (hRest : ∀ c ∈ rest.head?, P c = false) :
    (s ++ rest).takeWhile P = s := by
  rw [List.takeWhile_append_of_pos h]
  cases rest with
  | nil => simp
  | cons c rest => rw [List.takeWhile_cons_of_neg (by simp [hRest c rfl]), List.append_nil]

theorem dropWhile_of_ends (h : ∀ c ∈ s, P c = true) (hRest : ∀ c ∈ rest.head?, P c = false) :
    (s ++ rest).dropWhile P = rest := by
  rw [List.dropWhile_append_of_pos h]
  cases rest with
  | nil => rfl
  | cons c rest => rw [List.dropWhile_cons_of_neg (by simp [hRest c rfl])]

end Stretches

/-! ## Parts -/

variable {isSeparator : Char → Bool} {c : Char} {s rest : List Char}

theorem split_of_none (h : ∀ d ∈ s, isSeparator d = false) : split isSeparator s = [s] := by
  induction s with
  | nil => rfl
  | cons d s ih =>
    obtain ⟨hHead, hTail⟩ := List.forall_mem_cons.mp h
    simp [split, hHead, ih hTail]

/-- A text is split where the separator was put. -/
theorem split_append (h : ∀ d ∈ s, isSeparator d = false) (hc : isSeparator c = true) :
    split isSeparator (s ++ c :: rest) = s :: split isSeparator rest := by
  induction s with
  | nil => simp [split, hc]
  | cons d s ih =>
    obtain ⟨hHead, hTail⟩ := List.forall_mem_cons.mp h
    simp [split, hHead, ih hTail]

theorem split_ne_nil (isSeparator : Char → Bool) (s : List Char) : split isSeparator s ≠ [] := by
  cases s with
  | nil => simp [split]
  | cons d s =>
    rw [split]
    split
    · simp
    · split <;> simp

/-- The parts of a text are made of its characters, separators aside. -/
theorem mem_split {part : List Char} (h : part ∈ split isSeparator s) :
    ∀ d ∈ part, d ∈ s ∧ isSeparator d = false := by
  induction s generalizing part with
  | nil =>
    rw [split, List.mem_singleton] at h
    exact fun d hMem => absurd (h ▸ hMem) List.not_mem_nil
  | cons d s ih =>
    have hLater : ∀ part ∈ split isSeparator s, ∀ d' ∈ part,
        d' ∈ d :: s ∧ isSeparator d' = false := fun part hPart d' hMem =>
      (ih hPart d' hMem).imp_left (List.mem_cons_of_mem d)
    rw [split] at h
    split at h
    case isTrue =>
      rcases List.mem_cons.mp h with rfl | hPart
      · exact fun d' hMem => absurd hMem List.not_mem_nil
      · exact hLater part hPart
    case isFalse hHead =>
      split at h
      case h_1 hNone => exact absurd hNone (split_ne_nil _ _)
      case h_2 first others hParts =>
        rw [hParts] at hLater
        rcases List.mem_cons.mp h with rfl | hPart
        · refine List.forall_mem_cons.mpr ⟨⟨List.mem_cons_self, Bool.eq_false_iff.mpr hHead⟩, ?_⟩
          exact hLater first List.mem_cons_self
        · exact hLater part (List.mem_cons_of_mem _ hPart)

/-! ## One separator -/

theorem beq_eq_false_of_notMem (h : c ∉ s) : ∀ d ∈ s, (d == c) = false := by
  intro d hMem
  exact beq_eq_false_iff_ne.mpr fun hEq => h (hEq ▸ hMem)

theorem splitAt_of_notMem (h : c ∉ s) : splitAt c s = [s] :=
  split_of_none (beq_eq_false_of_notMem h)

theorem splitAt_append (h : c ∉ s) (rest : List Char) :
    splitAt c (s ++ c :: rest) = s :: splitAt c rest :=
  split_append (beq_eq_false_of_notMem h) (beq_self_eq_true c)

theorem notMem_of_mem_splitAt {part : List Char} (h : part ∈ splitAt c s) : c ∉ part := by
  intro hMem
  simpa using (mem_split h c hMem).2

/-- Parts are found again in the text that they are joined to. -/
theorem splitAt_intercalate {parts : List (List Char)} (hNe : parts ≠ [])
    (h : ∀ part ∈ parts, c ∉ part) : splitAt c ([c].intercalate parts) = parts := by
  induction parts with
  | nil => exact absurd rfl hNe
  | cons part parts ih =>
    obtain ⟨hHead, hTail⟩ := List.forall_mem_cons.mp h
    cases parts with
    | nil => rw [List.intercalate_singleton, splitAt_of_notMem hHead]
    | cons next parts =>
      rw [List.intercalate_cons_cons, List.append_assoc, List.singleton_append,
        splitAt_append hHead, ih (List.cons_ne_nil _ _) hTail]

theorem intercalate_cons_of_ne_nil {α : Type} (separator first : List α) {rest : List (List α)}
    (h : rest ≠ []) :
    separator.intercalate (first :: rest) = first ++ separator ++ separator.intercalate rest := by
  cases rest with
  | nil => exact absurd rfl h
  | cons next rest => rw [List.intercalate_cons_cons]

/-- A text is its parts, joined. -/
theorem intercalate_splitAt (c : Char) (s : List Char) : [c].intercalate (splitAt c s) = s := by
  induction s with
  | nil => rfl
  | cons d s ih =>
    rw [splitAt] at ih ⊢
    rw [split]
    split
    case isTrue hEq =>
      rw [intercalate_cons_of_ne_nil _ _ (split_ne_nil _ _), ih, eq_of_beq hEq]
      rfl
    case isFalse =>
      split
      case h_1 hNone => exact absurd hNone (split_ne_nil _ _)
      case h_2 first others hParts =>
        rw [hParts] at ih
        cases others with
        | nil =>
          rw [List.intercalate_singleton] at ih ⊢
          rw [ih]
        | cons next others =>
          rw [List.intercalate_cons_cons] at ih ⊢
          rw [List.cons_append, List.cons_append, ih]

theorem mem_intercalate {parts : List (List Char)} {d : Char} (h : d ∈ [c].intercalate parts) :
    d = c ∨ ∃ part ∈ parts, d ∈ part := by
  induction parts with
  | nil => cases h
  | cons part parts ih =>
    cases parts with
    | nil =>
      rw [List.intercalate_singleton] at h
      exact Or.inr ⟨part, List.mem_cons_self, h⟩
    | cons next parts =>
      rw [List.intercalate_cons_cons, List.append_assoc] at h
      rcases List.mem_append.mp h with hMem | hMem
      · exact Or.inr ⟨part, List.mem_cons_self, hMem⟩
      · rcases List.mem_cons.mp hMem with rfl | hMem
        · exact Or.inl rfl
        · exact (ih hMem).imp_right fun ⟨p, hPart, hd⟩ => ⟨p, List.mem_cons_of_mem _ hPart, hd⟩

end TripPlanner.Text
