import TripPlanner.Proofs.Text.Utf8
import TripPlanner.Url.Percent
import Mathlib.Data.Bool.AllAny

/-!
# Percent encoding

The octets of a text are decoded from their percent encoding whatever follows (`decode_octets`), and
a text without percent signs stands for its own octets (`decode_of_notMem`). What is encoded holds
admitted characters and encoded octets only (`mem_encode`). Where the percent sign and the
hexadecimal digits are admitted all of it is (`admitted_of_mem_encode`), so that encoding it again
changes nothing (`encode_eq_self`).
-/

namespace TripPlanner

/-- What is so of every ASCII code is so of every ASCII character. -/
theorem Text.of_ascii {P : Char → Prop} (h : ∀ n < 128, P (Char.ofNat n)) {c : Char}
    (hAscii : c.toNat < 128) : P c :=
  c.ofNat_toNat ▸ h c.toNat hAscii

namespace Url.Percent

open Text

theorem hexValue?_digit {n : Nat} (h : n < 16) : hexValue? (digit n) = some n := by
  have hAll : ∀ n : Fin 16, hexValue? (digit n) = some n.val := by decide
  exact hAll ⟨n, h⟩

theorem decode_octet (b : UInt8) (rest : List Char) :
    decode (octet b ++ rest) = b :: decode rest := by
  have hLt := b.toNat_lt
  rw [octet, List.cons_append, List.cons_append, List.cons_append, List.nil_append, decode,
    hexValue?_digit (by omega), hexValue?_digit (by omega)]
  simp only
  rw [Nat.div_add_mod', UInt8.ofNat_toNat]

theorem decode_octets (bs : List UInt8) (rest : List Char) :
    decode (bs.flatMap octet ++ rest) = bs ++ decode rest := by
  induction bs with
  | nil => rfl
  | cons b bs ih => rw [List.flatMap_cons, List.append_assoc, decode_octet, ih, List.cons_append]

theorem decode_character (c : Char) (rest : List Char) :
    decode (character c ++ rest) = Utf8.encodeChar c ++ decode rest :=
  decode_octets _ _

/-- A character other than the percent sign stands for itself. -/
theorem decode_cons {c : Char} (h : c ≠ '%') (rest : List Char) :
    decode (c :: rest) = Utf8.encodeChar c ++ decode rest := by
  rw [decode]
  rintro a b rest rfl
  exact absurd rfl h

/-- The characters of an encoded octet. -/
def isEncoding (c : Char) : Bool := c = '%' || (hexValue? c).isSome

theorem toNat_of_isEncoding {c : Char} (h : isEncoding c = true) : c.toNat < 128 := by
  rw [isEncoding, Bool.or_eq_true, decide_eq_true_eq, hexValue?] at h
  rcases h with rfl | h
  · decide
  · split_ifs at h with hDigit hLower hUpper
    · exact Nat.lt_of_le_of_lt hDigit.2 (by decide)
    · exact Nat.lt_of_le_of_lt hLower.2 (by decide)
    · exact Nat.lt_of_le_of_lt hUpper.2 (by decide)
    · cases h

theorem isEncoding_of_mem_octet {b : UInt8} {c : Char} (h : c ∈ octet b) :
    isEncoding c = true := by
  have hLt := b.toNat_lt
  simp only [octet, List.mem_cons, List.not_mem_nil, or_false] at h
  rcases h with rfl | rfl | rfl
  · rfl
  · rw [isEncoding, hexValue?_digit (by omega), Option.isSome_some, Bool.or_true]
  · rw [isEncoding, hexValue?_digit (by omega), Option.isSome_some, Bool.or_true]

theorem isEncoding_of_mem_character {c d : Char} (h : d ∈ character c) : isEncoding d = true := by
  obtain ⟨b, -, hMem⟩ := List.mem_flatMap.mp h
  exact isEncoding_of_mem_octet hMem

/-- A text without percent signs stands for its own octets. -/
theorem decode_of_notMem {s : List Char} (h : '%' ∉ s) : decode s = Utf8.encode s := by
  induction s with
  | nil => exact decode.eq_1
  | cons c s ih =>
    obtain ⟨hHead, hTail⟩ := List.ne_and_not_mem_of_not_mem_cons h
    rw [decode_cons (Ne.symm hHead), ih hTail]
    rfl

/-! ## Admitted characters -/

variable {admitted : Char → Bool} {s : List Char}

theorem isPrintable_iff {c : Char} : isPrintable c = true ↔ 32 ≤ c.toNat ∧ c.toNat ≤ 126 := by
  rw [isPrintable, Bool.and_eq_true, decide_eq_true_eq, decide_eq_true_eq]
  exact Iff.rfl

/-- A text is left as it is where all its characters are admitted. -/
theorem encode_eq_self (h : ∀ c ∈ s, admitted c = true) : encode admitted s = s := by
  induction s with
  | nil => rfl
  | cons c s ih =>
    obtain ⟨hHead, hTail⟩ := List.forall_mem_cons.mp h
    rw [encode, List.flatMap_cons, if_pos hHead, ← encode, ih hTail, List.singleton_append]

/-- The characters of an encoded text. -/
theorem mem_encode {c : Char} (h : c ∈ encode admitted s) :
    (c ∈ s ∧ admitted c = true) ∨ isEncoding c = true := by
  obtain ⟨d, hd, hMem⟩ := List.mem_flatMap.mp h
  split at hMem
  case isTrue hAdmitted =>
    rw [List.mem_singleton.mp hMem]
    exact Or.inl ⟨hd, hAdmitted⟩
  case isFalse => exact Or.inr (isEncoding_of_mem_character hMem)

theorem character_ne_nil (c : Char) : character c ≠ [] := by
  have hEncode : Utf8.encodeChar c ≠ [] := by
    rw [Utf8.encodeChar]
    split_ifs
    all_goals simp
  obtain ⟨b, bs, hCons⟩ := List.exists_cons_of_ne_nil hEncode
  simp [character, hCons, octet]

theorem encode_ne_nil (h : s ≠ []) : encode admitted s ≠ [] := by
  obtain ⟨c, rest, rfl⟩ := List.exists_cons_of_ne_nil h
  rw [encode, List.flatMap_cons]
  refine List.append_ne_nil_of_left_ne_nil ?_ _
  split
  · exact List.cons_ne_nil _ _
  · exact character_ne_nil c

/-- An encoded text begins with what the text begins with, or with a percent sign. -/
theorem head?_encode {c : Char} (h : (encode admitted s).head? = some c) :
    s.head? = some c ∨ isEncoding c = true := by
  cases s with
  | nil => cases h
  | cons d rest =>
    rw [encode, List.flatMap_cons] at h
    split at h
    case isTrue => exact Or.inl h
    case isFalse =>
      obtain ⟨e, es, hCons⟩ := List.exists_cons_of_ne_nil (character_ne_nil d)
      rw [hCons] at h
      obtain rfl : e = c := Option.some.inj h
      exact Or.inr (isEncoding_of_mem_character (hCons ▸ List.mem_cons_self))

/-- The percent sign and the hexadecimal digits are admitted. -/
def AdmitsEncoding (admitted : Char → Bool) : Prop :=
  ∀ c, isEncoding c = true → admitted c = true

theorem admitted_of_mem_encode (hAdmits : AdmitsEncoding admitted) {c : Char}
    (h : c ∈ encode admitted s) : admitted c = true :=
  (mem_encode h).elim And.right (hAdmits c)

/-- Whether a part of a URL admits what octets are encoded with, can be checked. -/
theorem admitsEncoding_of_ascii
    (h : ∀ n < 128, isEncoding (Char.ofNat n) = true → admitted (Char.ofNat n) = true) :
    AdmitsEncoding admitted := fun _ hEncoding =>
  of_ascii (P := fun c => isEncoding c = true → admitted c = true) h (toNat_of_isEncoding hEncoding)
    hEncoding

theorem admitsEncoding_isPrintable : AdmitsEncoding isPrintable :=
  admitsEncoding_of_ascii (by decide)

theorem admitsEncoding_inPath : AdmitsEncoding inPath := admitsEncoding_of_ascii (by decide)

theorem admitsEncoding_inUser : AdmitsEncoding inUser := admitsEncoding_of_ascii (by decide)

end Url.Percent

end TripPlanner
