import TripPlanner.Proofs.Text.Splitting
import TripPlanner.Proofs.Url.Percent
import TripPlanner.Url.Form

/-!
# Pairs read back

A name or a value is read as it was written (`decode_encode`). What is written holds neither `&` nor
`=` but as a separator (`encode_admits`), so a list of pairs is read as it was written
(`read_write`).
-/

namespace TripPlanner.Url

open Text

/-! ## Names and values -/

namespace Form

/-- A written blank is read as a blank. -/
def unplus (c : Char) : Char := if c = '+' then ' ' else c

theorem map_unplus {s : List Char} (h : '+' ∉ s) : s.map unplus = s := by
  have hSame : ∀ c ∈ s, unplus c = c := fun c hMem =>
    if_neg fun hEq : c = '+' => h (hEq ▸ hMem)
  exact (List.map_congr_left hSame).trans (List.map_id' s)

theorem decode_encodeChar (c : Char) (rest : List Char) :
    Percent.decode ((encodeChar c).map unplus ++ rest) =
      Utf8.encodeChar c ++ Percent.decode rest := by
  rw [encodeChar]
  split
  case isTrue hPlain =>
    have hPlus : c ≠ '+' := by rintro rfl; exact absurd hPlain (by decide)
    have hPercent : c ≠ '%' := by rintro rfl; exact absurd hPlain (by decide)
    rw [List.map_singleton, unplus, if_neg hPlus, List.singleton_append,
      Percent.decode_cons hPercent]
  split
  case isTrue hBlank =>
    rw [hBlank, List.map_singleton, List.singleton_append]
    exact Percent.decode_cons (by decide) rest
  case isFalse =>
    have hPlus : '+' ∉ Percent.character c := fun hMem =>
      absurd (Percent.isEncoding_of_mem_character hMem) (by decide)
    rw [map_unplus hPlus, Percent.decode_character]

/-- A name or a value is read as it was written. -/
theorem decode_encode (s : List Char) : decode (encode s) = s := by
  have hOctets : ∀ s : List Char, Percent.decode ((encode s).map unplus) = Utf8.encode s := by
    intro s
    induction s with
    | nil => exact Percent.decode.eq_1
    | cons c s ih =>
      rw [encode, List.flatMap_cons, List.map_append, decode_encodeChar, ← encode, ih]
      rfl
  exact (congrArg Utf8.decode (hOctets s)).trans (Utf8.decode_encode s)

/-- The characters that names and values are written with. -/
def admits (c : Char) : Bool := isPlain c || c = '+' || Percent.isEncoding c

theorem encode_admits {s : List Char} {c : Char} (h : c ∈ encode s) : admits c = true := by
  obtain ⟨d, -, hMem⟩ := List.mem_flatMap.mp h
  rw [encodeChar] at hMem
  split at hMem
  case isTrue hPlain =>
    rw [List.mem_singleton.mp hMem, admits, hPlain]
    rfl
  split at hMem
  case isTrue =>
    rw [List.mem_singleton.mp hMem]
    rfl
  case isFalse =>
    rw [admits, Percent.isEncoding_of_mem_character hMem, Bool.or_true]

theorem toNat_of_admits {c : Char} (h : admits c = true) : c.toNat < 128 := by
  rw [admits, Bool.or_eq_true, Bool.or_eq_true, decide_eq_true_eq] at h
  rcases h with (hPlain | rfl) | hEncoding
  · simp only [isPlain, Bool.or_eq_true, Bool.and_eq_true, decide_eq_true_eq, beq_iff_eq] at hPlain
    rcases hPlain with (((((⟨-, hc⟩ | ⟨-, hc⟩) | ⟨-, hc⟩) | rfl) | rfl) | rfl) | rfl
    · exact Nat.lt_of_le_of_lt hc (by decide)
    · exact Nat.lt_of_le_of_lt hc (by decide)
    · exact Nat.lt_of_le_of_lt hc (by decide)
    all_goals decide
  · decide
  · exact Percent.toNat_of_isEncoding hEncoding

theorem notMem_encode {c : Char} (h : admits c = false) (s : List Char) : c ∉ encode s :=
  fun hMem => by simp [encode_admits hMem] at h

/-! ## Pairs -/

/-- The characters that pairs are written with. -/
theorem mem_writePair {pair : List Char × List Char} {c : Char} (h : c ∈ writePair pair) :
    admits c = true ∨ c = '=' := by
  simp only [writePair, List.mem_append, List.mem_cons] at h
  rcases h with h | h | h
  · exact Or.inl (encode_admits h)
  · exact Or.inr h
  · exact Or.inl (encode_admits h)

/-- The characters that queries are written with. -/
theorem mem_write {ps : List (List Char × List Char)} {c : Char} (h : c ∈ write ps) :
    admits c = true ∨ c = '=' ∨ c = '&' := by
  induction ps using write.induct with
  | case1 => cases h
  | case2 pair => exact (mem_writePair h).imp_right Or.inl
  | case3 pair rest hRest ih =>
    have hWrite : write (pair :: rest) = writePair pair ++ '&' :: write rest := by
      rw [write]
      exact hRest
    rw [hWrite] at h
    rcases List.mem_append.mp h with hMem | hMem
    · exact (mem_writePair hMem).imp_right Or.inl
    · rcases List.mem_cons.mp hMem with rfl | hMem
      · exact Or.inr (Or.inr rfl)
      · exact ih hMem

theorem readPair_writePair (pair : List Char × List Char) : readPair (writePair pair) = pair := by
  have hName : '=' ∉ encode pair.1 := notMem_encode (by decide) _
  have hAll : ∀ c ∈ encode pair.1, decide (c ≠ '=') = true := fun c hMem =>
    decide_eq_true fun hEq => hName (hEq ▸ hMem)
  rw [readPair, writePair, List.takeWhile_append_of_pos hAll, List.dropWhile_append_of_pos hAll]
  simp [decode_encode]

theorem separator_notMem_writePair (pair : List Char × List Char) : '&' ∉ writePair pair :=
  fun hMem => (mem_writePair hMem).elim (by decide) (by decide)

theorem writePair_ne_nil (pair : List Char × List Char) : writePair pair ≠ [] := by
  simp [writePair]

/-- A list of pairs is read as it was written. -/
theorem read_write (ps : List (List Char × List Char)) : read (write ps) = ps := by
  have hKept : ∀ pair : List Char × List Char, (writePair pair).isEmpty = false := fun pair => by
    simp [writePair_ne_nil]
  induction ps using write.induct with
  | case1 => rfl
  | case2 pair =>
    simp [read, write, splitAt_of_notMem (separator_notMem_writePair pair), hKept,
      readPair_writePair]
  | case3 pair rest hRest ih =>
    have hWrite : write (pair :: rest) = writePair pair ++ '&' :: write rest := by
      rw [write]
      exact hRest
    rw [read] at ih ⊢
    rw [hWrite, splitAt_append (separator_notMem_writePair pair)]
    simp [hKept, readPair_writePair, ih]

/-- A query begins with the name of its first pair. -/
theorem prefix_write (pair : List Char × List Char) (ps : List (List Char × List Char)) :
    encode pair.1 ++ ['='] <+: write (pair :: ps) := by
  cases ps with
  | nil => exact ⟨encode pair.2, by simp [write, writePair]⟩
  | cons next rest =>
    exact ⟨encode pair.2 ++ '&' :: write (next :: rest), by simp [write, writePair]⟩

end Form

end TripPlanner.Url
