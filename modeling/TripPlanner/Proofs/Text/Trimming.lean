import TripPlanner.Text.Blank
import Mathlib.Data.List.DropRight

/-!
# Texts that are trimmed

A text without white space is trimmed already, and trimming twice is trimming once (`trim_trim`).
-/

namespace TripPlanner.Text

theorem trimStart_cons {c : Char} (h : isBlank c = false) (s : List Char) :
    trimStart (c :: s) = c :: s :=
  List.dropWhile_cons_of_neg (by simp [h])

/-- A text with no white space at its ends is trimmed. -/
theorem trim_of_ends {s : List Char} (hFirst : ∀ c ∈ s.head?, isBlank c = false)
    (hLast : ∀ c ∈ s.getLast?, isBlank c = false) : trim s = s := by
  have hStart : trimStart s = s := by
    cases s with
    | nil => rfl
    | cons c s => exact trimStart_cons (hFirst c rfl) s
  have hEnd : trimEnd s = s :=
    List.rdropWhile_eq_self_iff.mpr fun hNe => by
      simp [hLast _ (List.getLast?_eq_some_getLast hNe)]
  rw [trim, hStart, hEnd]

/-- A text without white space is trimmed. -/
theorem trim_eq_self {s : List Char} (h : ∀ c ∈ s, isBlank c = false) : trim s = s :=
  trim_of_ends (fun c hMem => h c (List.mem_of_mem_head? hMem))
    fun c hMem => h c (List.mem_of_mem_getLast? hMem)

theorem trim_trim (s : List Char) : trim (trim s) = trim s := by
  have hStart : trimStart (trim s) = trim s := by
    refine List.dropWhile_eq_self_iff.mpr fun hLt => ?_
    -- What is left begins as the text did after its white space.
    have hPrefix : trim s <+: trimStart s := List.rdropWhile_prefix isBlank (trimStart s)
    rw [hPrefix.getElem hLt]
    exact List.dropWhile_get_zero_not isBlank s (hLt.trans_le hPrefix.length_le)
  have hEnd : trimEnd (trim s) = trim s := List.rdropWhile_idempotent isBlank _
  rw [trim, hStart, hEnd]

theorem trimmed_eq_self {s : String} (h : ∀ c ∈ s.toList, isBlank c = false) : trimmed s = s := by
  rw [trimmed, trim_eq_self h, String.ofList_toList]

theorem trimmed_trimmed (s : String) : trimmed (trimmed s) = trimmed s := by
  rw [trimmed, trimmed, String.toList_ofList, trim_trim]

end TripPlanner.Text
