import TripPlanner.Proofs.Checks
import TripPlanner.Proofs.Text.Splitting
import TripPlanner.Url.Address
import Mathlib.Algebra.Order.Ring.Nat
import Mathlib.Data.List.Induction
import Mathlib.Data.List.TakeWhile

/-!
# Addresses read back

An address of four octets is read as it was written (`Ipv4.read?_write`), and so is an address of
eight groups: groups are read one by one (`Ipv6.rest?_groups`), and a run of zeros that was left out
is filled in again (`Ipv6.read?_body`).
-/

namespace TripPlanner.Url

open Text

namespace Ipv4

/-! ## Four octets -/

/-- The octets of an address. -/
def octets (n : Nat) : List Nat := [3, 2, 1, 0].map fun place => n / Nat.pow 256 place % 256

theorem write_eq (n : Nat) : write n = ['.'].intercalate ((octets n).map digits) := rfl

theorem lt_of_mem_octets {n octet : Nat} (h : octet ∈ octets n) : octet < 256 := by
  obtain ⟨place, -, rfl⟩ := List.mem_map.mp h
  exact Nat.mod_lt _ (by decide)

theorem dot_notMem_digits (n : Nat) : '.' ∉ digits n := fun hMem =>
  absurd (isDigit_of_mem_digits hMem) (by decide)

theorem splitAt_write (n : Nat) : splitAt '.' (write n) = (octets n).map digits := by
  rw [write_eq]
  refine splitAt_intercalate (by simp [octets]) fun part hMem => ?_
  obtain ⟨octet, -, rfl⟩ := List.mem_map.mp hMem
  exact dot_notMem_digits octet

theorem parts_write (n : Nat) : parts (write n) = (octets n).map digits := by
  have hLast : ((octets n).map digits).getLast? ≠ some [] := by
    simp [octets, digits_ne_nil]
  rw [parts, splitAt_write]
  exact if_neg hLast

theorem number?_digits {n : Nat} (h : n < 256) : number? (digits n) = some n := by
  have hAll : ∀ n : Fin 256, number? (digits n) = some n.val := by decide +kernel
  exact hAll ⟨n, h⟩

/-- A host that is an address has to be one. -/
theorem isNumeric_write (n : Nat) : isNumeric (write n) = true := by
  have hDigits : ∀ n, (digits n).all isDigit = true := fun n =>
    List.all_eq_true.mpr fun _ => isDigit_of_mem_digits
  simp [isNumeric, parts_write, octets, hDigits, digits_ne_nil]

/-- An address is read as it was written. -/
theorem read?_write {n : Nat} (h : n < 256 ^ 4) : read? (write n) = some n := by
  have hNumbers : ((octets n).map digits).mapM number? = some (octets n) := by
    rw [List.mapM_map]
    refine (Checks.mapM_eq_some_map (g := id) fun octet hMem => ?_).trans (by rw [List.map_id])
    exact number?_digits (lt_of_mem_octets hMem)
  rw [read?, parts_write, hNumbers]
  simp [octets, join?]
  omega

theorem foldl_lt {before : List Nat} (h : ∀ octet ∈ before, octet < 256) :
    before.foldl (fun n octet => n * 256 + octet) 0 < 256 ^ before.length := by
  induction before using List.reverseRecOn with
  | nil => decide
  | append_singleton before octet ih =>
    obtain ⟨hBefore, hOctet⟩ := List.forall_mem_append.mp h
    have hLt := hOctet octet List.mem_cons_self
    have hFold := ih hBefore
    rw [List.foldl_append, List.foldl_cons, List.foldl_nil, List.length_append,
      List.length_singleton, Nat.pow_succ]
    omega

/-- An address that has been read has four octets. -/
theorem lt_of_read? {s : List Char} {n : Nat} (h : read? s = some n) : n < 256 ^ 4 := by
  rw [read?] at h
  obtain ⟨numbers, -, h⟩ := Option.bind_eq_some_iff.mp h
  split_ifs at h with hMany
  obtain ⟨last, -, h⟩ := Option.bind_eq_some_iff.mp h
  rw [join?] at h
  split_ifs at h with hFits
  obtain ⟨hBefore, hLast⟩ := not_or.mp (mt (Bool.or_eq_true _ _).mpr hFits)
  have hOctets : ∀ octet ∈ numbers.dropLast, octet < 256 := by
    simpa using hBefore
  have hRoom : last < 256 ^ (4 - numbers.dropLast.length) := by
    simpa using hLast
  have hLength : numbers.dropLast.length ≤ 4 := by
    rw [List.length_dropLast]
    omega
  obtain rfl := Option.some.inj h
  calc numbers.dropLast.foldl (fun n octet => n * 256 + octet) 0 *
          256 ^ (4 - numbers.dropLast.length) + last
      < (numbers.dropLast.foldl (fun n octet => n * 256 + octet) 0 + 1) *
          256 ^ (4 - numbers.dropLast.length) := by
        rw [Nat.succ_mul]
        omega
    _ ≤ 256 ^ numbers.dropLast.length * 256 ^ (4 - numbers.dropLast.length) :=
        Nat.mul_le_mul_right _ (foldl_lt hOctets)
    _ = 256 ^ 4 := by rw [← Nat.pow_add, Nat.add_sub_cancel' hLength]

end Ipv4

namespace Ipv6

/-! ## Groups in hexadecimal -/

theorem writeGroup_of_lt {n : Nat} (h : n < 16) : writeGroup n = [n.digitChar] :=
  Nat.toDigits_of_lt_base h

theorem writeGroup_of_le {n : Nat} (h : 16 ≤ n) :
    writeGroup n = writeGroup (n / 16) ++ [(n % 16).digitChar] := by
  have hAppend := Nat.toDigits_append_toDigits (b := 16) (by decide) (Nat.div_pos h (by decide))
    (Nat.mod_lt n (by decide : 0 < 16))
  rw [Nat.div_add_mod, Nat.toDigits_of_lt_base (Nat.mod_lt n (by decide : 0 < 16))] at hAppend
  exact hAppend.symm

theorem hexValue?_digitChar {n : Nat} (h : n < 16) : hexValue? n.digitChar = some n := by
  have hAll : ∀ n : Fin 16, hexValue? n.val.digitChar = some n.val := by decide
  exact hAll ⟨n, h⟩

/-- The value of hexadecimal digits. -/
def value (ds : List Char) : Nat := ds.foldl (fun n c => n * 16 + (hexValue? c).getD 0) 0

theorem value_concat (ds : List Char) (c : Char) :
    value (ds ++ [c]) = value ds * 16 + (hexValue? c).getD 0 := by
  rw [value, List.foldl_append]
  rfl

/-- A group is written in hexadecimal digits that have its value. -/
theorem writeGroup_spec (n : Nat) :
    value (writeGroup n) = n ∧ ∀ c ∈ writeGroup n, (hexValue? c).isSome = true := by
  induction n using Nat.strong_induction_on with
  | _ n ih =>
    rcases Nat.lt_or_ge n 16 with hLt | hLe
    · rw [writeGroup_of_lt hLt]
      have hDigit := hexValue?_digitChar hLt
      exact ⟨by simp [value, hDigit], by simp [hDigit]⟩
    · obtain ⟨hValue, hDigits⟩ := ih (n / 16) (Nat.div_lt_self (by omega) (by decide))
      have hDigit := hexValue?_digitChar (Nat.mod_lt n (by decide : 0 < 16))
      rw [writeGroup_of_le hLe, value_concat, hValue, hDigit]
      refine ⟨Nat.div_add_mod' n 16, List.forall_mem_append.mpr ⟨hDigits, ?_⟩⟩
      simp [hDigit]

theorem writeGroup_ne_nil (n : Nat) : writeGroup n ≠ [] := Nat.toDigits_ne_nil

theorem length_writeGroup {n : Nat} (h : n < 0x10000) : (writeGroup n).length ≤ 4 :=
  (Nat.length_toDigits_le_iff (by decide) (by decide)).mpr h

/-- What may follow a group. -/
def EndsGroup (rest : List Char) : Prop := ∀ c ∈ rest.head?, hexValue? c = none

/-- A group is read as it was written. -/
theorem group_writeGroup {n : Nat} (h : n < 0x10000) {rest : List Char} (hRest : EndsGroup rest) :
    group (writeGroup n ++ rest) = (n, rest) := by
  obtain ⟨hValue, hDigits⟩ := writeGroup_spec n
  have hTake : ((writeGroup n ++ rest).take 4).takeWhile (fun c => (hexValue? c).isSome) =
      writeGroup n := by
    rw [List.take_append, List.take_of_length_le (length_writeGroup h),
      List.takeWhile_append_of_pos hDigits]
    cases rest with
    | nil => simp
    | cons c rest =>
      have hStop : hexValue? c = none := hRest c rfl
      cases 4 - (writeGroup n).length with
      | zero => simp
      | succ k => simp [hStop]
  rw [group, hTake, List.drop_left]
  exact congrArg (·, rest) hValue

/-! ## Groups with colons between them -/

/-- Further groups. -/
def Groups.pushAll (g : Groups) (ns : List Nat) : Groups :=
  match g.after with
  | some groups => { g with after := some (groups ++ ns) }
  | none => { g with before := g.before ++ ns }

theorem Groups.taken_push (g : Groups) (n : Nat) : (g.push n).taken = g.taken + 1 := by
  unfold push taken
  cases g.after
  · simp
  · simp
    omega

theorem Groups.pushAll_cons (g : Groups) (n : Nat) (ns : List Nat) :
    g.pushAll (n :: ns) = (g.push n).pushAll ns := by
  unfold push pushAll
  cases g.after <;> simp

theorem Groups.pushAll_nil (g : Groups) : g.pushAll [] = g := by
  unfold pushAll
  rcases g with ⟨before, _ | groups⟩ <;> simp

theorem hexValue?_colon : hexValue? ':' = none := by decide

/-- A group begins with a hexadecimal digit. -/
theorem exists_writeGroup_eq_cons (n : Nat) :
    ∃ c cs, writeGroup n = c :: cs ∧ (hexValue? c).isSome = true ∧ c ≠ ':' := by
  obtain ⟨c, cs, hCons⟩ := List.exists_cons_of_ne_nil (writeGroup_ne_nil n)
  have hHex := (writeGroup_spec n).2 c (hCons ▸ List.mem_cons_self)
  refine ⟨c, cs, hCons, hHex, ?_⟩
  rintro rfl
  rw [hexValue?_colon] at hHex
  cases hHex

/-- The last group of an address. -/
theorem rest?_last {fuel n : Nat} {g : Groups} (h : n < 0x10000) (hRoom : g.taken < 8) :
    rest? (fuel + 1) g (writeGroup n) = some (g.push n) := by
  have hGroup : group (writeGroup n ++ []) = (n, []) :=
    group_writeGroup h fun _ hMem => (nomatch hMem)
  obtain ⟨c, cs, hCons, hHex, hColon⟩ := exists_writeGroup_eq_cons n
  rw [List.append_nil, hCons] at hGroup
  rw [hCons, rest?, if_neg hRoom.ne, if_neg hColon, hGroup]
  exact if_pos hHex

/-- A group with a colon after it. -/
theorem rest?_colon {fuel n : Nat} {g : Groups} {more : List Char} (h : n < 0x10000)
    (hRoom : g.taken < 8) (hMore : more ≠ []) :
    rest? (fuel + 1) g (writeGroup n ++ ':' :: more) = rest? fuel (g.push n) more := by
  have hGroup : group (writeGroup n ++ ':' :: more) = (n, ':' :: more) :=
    group_writeGroup h (by simp [EndsGroup, hexValue?_colon])
  obtain ⟨c, cs, hCons, hHex, hColon⟩ := exists_writeGroup_eq_cons n
  rw [hCons, List.cons_append] at hGroup
  rw [hCons, List.cons_append, rest?, if_neg hRoom.ne, if_neg hColon, hGroup]
  simp [hMore]

theorem writeGroups_cons {n : Nat} {ns : List Nat} (h : ns ≠ []) :
    writeGroups (n :: ns) = writeGroup n ++ ':' :: writeGroups ns := by
  rw [writeGroups, List.map_cons, intercalate_cons_of_ne_nil _ _ (by simpa using h),
    List.append_assoc, List.singleton_append, ← writeGroups]

theorem writeGroups_ne_nil {ns : List Nat} (h : ns ≠ []) : writeGroups ns ≠ [] := by
  cases ns with
  | nil => exact absurd rfl h
  | cons n ns =>
    cases ns with
    | nil =>
      rw [writeGroups, List.map_singleton, List.intercalate_singleton]
      exact writeGroup_ne_nil n
    | cons m ns =>
      rw [writeGroups_cons (List.cons_ne_nil m ns)]
      exact List.append_ne_nil_of_left_ne_nil (writeGroup_ne_nil n) _

/-- Groups at the end of an address are read one by one. -/
theorem rest?_groups {fuel : Nat} {g : Groups} {ns : List Nat} (h : ∀ n ∈ ns, n < 0x10000)
    (hRoom : g.taken + ns.length ≤ 8) (hFuel : ns.length ≤ fuel) :
    rest? fuel g (writeGroups ns) = some (g.pushAll ns) := by
  induction ns generalizing fuel g with
  | nil =>
    rw [Groups.pushAll_nil]
    exact rest?.eq_1 ..
  | cons n ns ih =>
    obtain ⟨hHead, hTail⟩ := List.forall_mem_cons.mp h
    rw [List.length_cons] at hRoom hFuel
    obtain ⟨fuel, rfl⟩ := Nat.exists_eq_add_one_of_ne_zero (show fuel ≠ 0 by omega)
    rw [Groups.pushAll_cons]
    cases ns with
    | nil =>
      rw [writeGroups, List.map_singleton, List.intercalate_singleton, Groups.pushAll_nil]
      exact rest?_last hHead (by omega)
    | cons m ns =>
      rw [writeGroups_cons (List.cons_ne_nil m ns), rest?_colon hHead (by omega)
        (writeGroups_ne_nil (List.cons_ne_nil m ns))]
      exact ih hTail (by rw [Groups.taken_push]; omega) (by omega)

/-- Groups before a run of zeros that is left out. -/
theorem rest?_gap {fuel : Nat} {before ns after : List Nat} (hNe : ns ≠ [])
    (h : ∀ n ∈ ns, n < 0x10000) (hAfter : ∀ n ∈ after, n < 0x10000)
    (hRoom : before.length + ns.length + after.length < 8)
    (hFuel : ns.length + after.length < fuel) :
    rest? fuel ⟨before, none⟩ (writeGroups ns ++ ':' :: ':' :: writeGroups after) =
      some ⟨before ++ ns, some after⟩ := by
  induction ns generalizing fuel before with
  | nil => exact absurd rfl hNe
  | cons n ns ih =>
    obtain ⟨hHead, hTail⟩ := List.forall_mem_cons.mp h
    rw [List.length_cons] at hRoom hFuel
    obtain ⟨fuel, rfl⟩ := Nat.exists_eq_add_one_of_ne_zero (show fuel ≠ 0 by omega)
    have hTaken : (Groups.mk before none).taken < 8 := by
      show before.length < 8
      omega
    cases ns with
    | nil =>
      obtain ⟨fuel, rfl⟩ := Nat.exists_eq_add_one_of_ne_zero (show fuel ≠ 0 by omega)
      rw [writeGroups, List.map_singleton, List.intercalate_singleton,
        rest?_colon hHead hTaken (List.cons_ne_nil _ _)]
      have hTaken' : (Groups.mk (before ++ [n]) none).taken ≠ 8 := by
        show (before ++ [n]).length ≠ 8
        simp at hRoom ⊢
        omega
      show rest? (fuel + 1) ⟨before ++ [n], none⟩ (':' :: writeGroups after) = _
      rw [rest?, if_neg hTaken', if_pos rfl]
      refine (rest?_groups hAfter ?_ (by omega)).trans rfl
      show (before ++ [n]).length + 1 + 0 + after.length ≤ 8
      simp at hRoom ⊢
      omega
    | cons m ns =>
      have hMore : rest? fuel ⟨before ++ [n], none⟩ (writeGroups (m :: ns) ++ ':' :: ':' ::
          writeGroups after) = some ⟨before ++ [n] ++ m :: ns, some after⟩ :=
        ih (List.cons_ne_nil m ns) hTail (by simp at hRoom ⊢; omega) (by omega)
      rw [writeGroups_cons (List.cons_ne_nil m ns), List.append_assoc, List.cons_append,
        rest?_colon hHead hTaken (List.append_ne_nil_of_right_ne_nil _ (List.cons_ne_nil _ _))]
      rw [List.append_assoc] at hMore
      exact hMore

/-! ## Runs of zeros -/

theorem zeros_le_length (groups : List Nat) : zeros groups ≤ groups.length :=
  (List.takeWhile_prefix _).length_le

/-- Groups begin with the zeros that are counted. -/
theorem eq_replicate_append {groups : List Nat} {length : Nat} (h : length ≤ zeros groups) :
    groups = List.replicate length 0 ++ groups.drop length := by
  have hLength : (groups.take length).length = length := by
    rw [List.length_take]
    exact min_eq_left (h.trans (zeros_le_length groups))
  have hPrefix : groups.take length <+: groups.takeWhile (· = 0) :=
    List.prefix_of_prefix_length_le (List.take_prefix _ _) (List.takeWhile_prefix _)
      (hLength.trans_le h)
  have hTake : groups.take length = List.replicate length 0 :=
    List.eq_replicate_iff.mpr ⟨hLength, fun n hMem => by
      simpa using List.mem_takeWhile_imp (hPrefix.subset hMem)⟩
  rw [← hTake, List.take_append_drop]

/-- The longer one of a run and the run that begins at some place. -/
def longer (groups : List Nat) (best : Nat × Nat) (start : Nat) : Nat × Nat :=
  if best.2 < zeros (groups.drop start) then (start, zeros (groups.drop start)) else best

/-- The run that is left out consists of zeros. -/
theorem longestRun_spec (groups : List Nat) :
    (longestRun groups).2 ≤ zeros (groups.drop (longestRun groups).1) := by
  have hFold : ∀ (starts : List Nat) (best : Nat × Nat), best.2 ≤ zeros (groups.drop best.1) →
      (starts.foldl (longer groups) best).2 ≤
        zeros (groups.drop (starts.foldl (longer groups) best).1) := by
    intro starts
    induction starts with
    | nil => exact fun _ h => h
    | cons start starts ih =>
      intro best h
      refine ih _ ?_
      rw [longer]
      split
      · exact Nat.le_refl _
      · exact h
  exact hFold _ (0, 0) (Nat.zero_le _)

/-! ## Addresses -/

/-- An address between its brackets. -/
def body (groups : List Nat) : List Char :=
  let (start, length) := longestRun groups
  if length < 2 then writeGroups groups
  else writeGroups (groups.take start) ++ ':' :: ':' :: writeGroups (groups.drop (start + length))

theorem write_eq (groups : List Nat) : write groups = '[' :: (body groups ++ [']']) := rfl

/-- The groups of an address. -/
structure IsAddress (groups : List Nat) : Prop where
  length : groups.length = 8
  lt : ∀ n ∈ groups, n < 0x10000

/-- A run that is left out is filled in again. -/
theorem fill?_gap {before after : List Nat} {length : Nat}
    (h : before.length + length + after.length = 8) (hLength : 2 ≤ length) :
    Groups.fill? ⟨before, some after⟩ = some (before ++ List.replicate length 0 ++ after) := by
  have hTaken : (Groups.mk before (some after)).taken ≤ 8 := by
    show before.length + 1 + after.length ≤ 8
    omega
  have hRun : 8 - before.length - after.length = length := by omega
  simp only [Groups.fill?, hTaken, if_true, hRun]

/-- An address that begins with a group. -/
theorem read?_writeGroup (n : Nat) {more : List Char} (hMore : more ≠ []) :
    read? (writeGroup n ++ more) =
      (rest? (writeGroup n ++ more).length ⟨[], none⟩ (writeGroup n ++ more)).bind
        Groups.fill? := by
  obtain ⟨c, cs, hCons, -, hColon⟩ := exists_writeGroup_eq_cons n
  have hTail : cs ++ more ≠ [] := List.append_ne_nil_of_right_ne_nil _ hMore
  rw [hCons, List.cons_append, read?]
  · rintro rest hEq
    exact hColon (List.cons.inj hEq).1
  · rintro rest hEq
    exact hColon (List.cons.inj hEq).1
  · intro hEq
    cases hEq
  · intro d hEq
    exact hTail (List.cons.inj hEq).2

/-- An address that begins with some groups. -/
theorem read?_append {ns : List Nat} (h : ns ≠ []) {more : List Char} (hMore : more ≠ []) :
    read? (writeGroups ns ++ more) =
      (rest? (writeGroups ns ++ more).length ⟨[], none⟩ (writeGroups ns ++ more)).bind
        Groups.fill? := by
  cases ns with
  | nil => exact absurd rfl h
  | cons n ns =>
    cases ns with
    | nil =>
      rw [writeGroups, List.map_singleton, List.intercalate_singleton]
      exact read?_writeGroup n hMore
    | cons m ns =>
      rw [writeGroups_cons (List.cons_ne_nil m ns), List.append_assoc, List.cons_append]
      exact read?_writeGroup n (List.cons_ne_nil _ _)

theorem length_le_writeGroups (ns : List Nat) : ns.length ≤ (writeGroups ns).length := by
  induction ns with
  | nil => exact Nat.le_refl _
  | cons n ns ih =>
    have hGroup := List.length_pos_iff.mpr (writeGroup_ne_nil n)
    cases ns with
    | nil =>
      rw [writeGroups, List.map_singleton, List.intercalate_singleton]
      exact hGroup
    | cons m ns =>
      rw [writeGroups_cons (List.cons_ne_nil m ns)]
      simp only [List.length_append, List.length_cons] at ih ⊢
      omega

/-- An address without a run that is left out is read as it was written. -/
theorem read?_writeGroups {groups : List Nat} (h : IsAddress groups) :
    read? (writeGroups groups) = some groups := by
  have hLength := h.length
  have hRest : rest? (writeGroups groups).length ⟨[], none⟩ (writeGroups groups) =
      some ⟨groups, none⟩ :=
    rest?_groups h.lt (Nat.le_of_eq ((Nat.zero_add _).trans hLength))
      (length_le_writeGroups groups)
  cases hGroups : groups with
  | nil => simp [hGroups] at hLength
  | cons n ns =>
    have hNe : ns ≠ [] := by
      rintro rfl
      simp [hGroups] at hLength
    rw [hGroups] at hRest hLength
    rw [writeGroups_cons hNe] at hRest ⊢
    rw [read?_writeGroup n (List.cons_ne_nil _ _), hRest]
    exact if_pos hLength

/-- An address with a run that is left out is read as it was written. -/
theorem read?_gap {before after : List Nat} {length : Nat}
    (h : before.length + length + after.length = 8) (hLength : 2 ≤ length)
    (hBefore : ∀ n ∈ before, n < 0x10000) (hAfter : ∀ n ∈ after, n < 0x10000) :
    read? (writeGroups before ++ ':' :: ':' :: writeGroups after) =
      some (before ++ List.replicate length 0 ++ after) := by
  rw [← fill?_gap h hLength]
  cases before with
  | nil =>
    have hRoom : (Groups.mk [] (some [])).taken + after.length ≤ 8 := by
      show 1 + after.length ≤ 8
      simp only [List.length_nil] at h
      omega
    show read? (':' :: ':' :: writeGroups after) = _
    rw [read?, rest?_groups hAfter hRoom (length_le_writeGroups after)]
    rfl
  | cons n ns =>
    have hLengths := length_le_writeGroups (n :: ns)
    have hLengths' := length_le_writeGroups after
    rw [read?_append (List.cons_ne_nil n ns) (List.cons_ne_nil _ _),
      rest?_gap (List.cons_ne_nil n ns) hBefore hAfter]
    · rfl
    · simp only [List.length_nil]
      omega
    · simp only [List.length_append, List.length_cons] at hLengths ⊢
      omega

/-- An address is read as it was written. -/
theorem read?_body {groups : List Nat} (h : IsAddress groups) :
    read? (body groups) = some groups := by
  have hZeros := longestRun_spec groups
  rw [body]
  generalize longestRun groups = run at hZeros
  obtain ⟨start, length⟩ := run
  simp only at hZeros ⊢
  split
  case isTrue => exact read?_writeGroups h
  case isFalse hLength =>
    have hRun := eq_replicate_append hZeros
    rw [List.drop_drop] at hRun
    have hRoom := hZeros.trans (zeros_le_length _)
    rw [List.length_drop, h.length] at hRoom
    have hGroups : groups.take start ++ List.replicate length 0 ++ groups.drop (start + length) =
        groups := by
      rw [List.append_assoc, ← hRun, List.take_append_drop]
    have hLengths : (groups.take start).length + length + (groups.drop (start + length)).length =
        8 := by
      rw [List.length_take, List.length_drop, h.length]
      omega
    rw [read?_gap hLengths (Nat.le_of_not_lt hLength)
      (fun n hMem => h.lt n (List.mem_of_mem_take hMem))
      (fun n hMem => h.lt n (List.mem_of_mem_drop hMem)), hGroups]

theorem mem_writeGroups {ns : List Nat} {c : Char} (h : c ∈ writeGroups ns) :
    c = ':' ∨ (hexValue? c).isSome = true := by
  refine (mem_intercalate h).imp_right ?_
  rintro ⟨part, hPart, hMem⟩
  obtain ⟨n, -, rfl⟩ := List.mem_map.mp hPart
  exact (writeGroup_spec n).2 c hMem

/-- The characters of an address between its brackets. -/
theorem mem_body {groups : List Nat} {c : Char} (h : c ∈ body groups) :
    c = ':' ∨ (hexValue? c).isSome = true := by
  rw [body] at h
  simp only at h
  split at h
  case isTrue => exact mem_writeGroups h
  case isFalse =>
    rcases List.mem_append.mp h with hMem | hMem
    · exact mem_writeGroups hMem
    · rcases List.mem_cons.mp hMem with rfl | hMem
      · exact Or.inl rfl
      · rcases List.mem_cons.mp hMem with rfl | hMem
        · exact Or.inl rfl
        · exact mem_writeGroups hMem

/-! ## Addresses that have been read -/

/-- All groups that have been read are groups of sixteen bits. -/
structure Groups.Small (g : Groups) : Prop where
  before : ∀ n ∈ g.before, n < 0x10000
  after : ∀ groups ∈ g.after, ∀ n ∈ groups, n < 0x10000

theorem Groups.Small.push {g : Groups} (h : g.Small) {n : Nat} (hn : n < 0x10000) :
    (g.push n).Small := by
  obtain ⟨before, after⟩ := g
  cases after with
  | none =>
    refine ⟨List.forall_mem_append.mpr ⟨h.before, ?_⟩, h.after⟩
    simpa using hn
  | some groups =>
    refine ⟨h.before, ?_⟩
    rintro _ ⟨⟩
    refine List.forall_mem_append.mpr ⟨h.after groups rfl, ?_⟩
    simpa using hn

theorem hexValue?_lt (c : Char) : (hexValue? c).getD 0 < 16 := by
  rw [hexValue?]
  split_ifs with hDigit hLower hUpper
  · have hCode : c.toNat ≤ '9'.toNat := hDigit.2
    simp at hCode ⊢
    omega
  · have hCode : c.toNat ≤ 'f'.toNat := hLower.2
    simp at hCode ⊢
    omega
  · have hCode : c.toNat ≤ 'F'.toNat := hUpper.2
    simp at hCode ⊢
    omega
  · decide

theorem value_lt (ds : List Char) : value ds < 16 ^ ds.length := by
  induction ds using List.reverseRecOn with
  | nil => decide
  | append_singleton ds c ih =>
    have hDigit := hexValue?_lt c
    rw [value_concat, List.length_append, List.length_singleton, Nat.pow_succ]
    omega

theorem group_lt (s : List Char) : (group s).1 < 0x10000 := by
  have hLength : ((s.take 4).takeWhile fun c => (hexValue? c).isSome).length ≤ 4 :=
    (List.takeWhile_prefix _).length_le.trans (List.length_take_le 4 s)
  exact (value_lt _).trans_le (Nat.pow_le_pow_right (by decide) hLength)

theorem octet?_lt {s : List Char} {n : Nat} (h : octet? s = some n) : n < 256 := by
  unfold octet? at h
  split at h
  case h_1 => cases h
  case h_2 =>
    obtain ⟨m, -, h⟩ := Option.bind_eq_some_iff.mp h
    split_ifs at h with hLt
    exact Option.some.inj h ▸ hLt

theorem Groups.Small.dotted? {g g' : Groups} (h : g.Small) {s : List Char}
    (hDotted : dotted? g s = some g') : g'.Small := by
  rw [Ipv6.dotted?] at hDotted
  split_ifs at hDotted
  obtain ⟨octets, hOctets, hDotted⟩ := Option.bind_eq_some_iff.mp hDotted
  have hLt : ∀ octet ∈ octets, octet < 256 := fun octet hMem => by
    obtain ⟨part, -, hOctet⟩ := Checks.mem_of_mapM_eq_some hOctets octet hMem
    exact octet?_lt hOctet
  split at hDotted
  case h_1 a b c d =>
    obtain rfl := Option.some.inj hDotted
    simp only [List.forall_mem_cons] at hLt
    exact (h.push (by omega)).push (by omega)
  case h_2 => cases hDotted

theorem Groups.Small.rest? {fuel : Nat} {g g' : Groups} (h : g.Small) {s : List Char}
    (hRest : rest? fuel g s = some g') : g'.Small := by
  fun_induction Ipv6.rest? fuel g s with
  | case1 fuel g => exact Option.some.inj hRest ▸ h
  | case5 fuel g afterColon hTaken hAfter ih =>
    refine ih ⟨h.before, ?_⟩ hRest
    rintro _ ⟨⟩ n hMem
    cases hMem
  | case6 fuel g c afterColon hTaken hColon n hHex hGroup =>
    have hLt := group_lt (c :: afterColon)
    rw [hGroup] at hLt
    exact Option.some.inj hRest ▸ h.push hLt
  | case8 fuel g c afterColon hTaken hColon n more hHex hGroup => exact h.dotted? hRest
  | case11 fuel g c afterColon hTaken hColon n more hMore hGroup ih =>
    have hLt := group_lt (c :: afterColon)
    rw [hGroup] at hLt
    exact ih (h.push hLt) hRest
  | _ => cases hRest

theorem isAddress_of_fill? {g : Groups} (h : g.Small) {groups : List Nat}
    (hFill : g.fill? = some groups) : IsAddress groups := by
  obtain ⟨before, after⟩ := g
  cases after with
  | none =>
    rw [Groups.fill?] at hFill
    simp only at hFill
    split_ifs at hFill with hLength
    obtain rfl := Option.some.inj hFill
    exact ⟨hLength, h.before⟩
  | some after =>
    have hTaken : (Groups.mk before (some after)).taken = before.length + 1 + after.length := rfl
    rw [Groups.fill?, hTaken] at hFill
    simp only at hFill
    split at hFill
    case isFalse => cases hFill
    case isTrue hLength =>
      obtain rfl := Option.some.inj hFill
      refine ⟨?_, ?_⟩
      · simp only [List.length_append, List.length_replicate]
        omega
      · refine List.forall_mem_append.mpr
          ⟨List.forall_mem_append.mpr ⟨h.before, ?_⟩, h.after _ rfl⟩
        intro n hMem
        rw [List.eq_of_mem_replicate hMem]
        decide

theorem small_of_forall {before : List Nat} {after : Option (List Nat)} (hBefore : before = [])
    (hAfter : after.getD [] = []) : (Groups.mk before after).Small := by
  refine ⟨fun n hMem => ?_, ?_⟩
  · rw [hBefore] at hMem
    cases hMem
  · rintro groups rfl n hMem
    rw [show groups = [] from hAfter] at hMem
    cases hMem

/-- Groups that have been read are an address. -/
theorem isAddress_of_read? {s : List Char} {groups : List Nat} (h : read? s = some groups) :
    IsAddress groups := by
  unfold read? at h
  split at h
  case h_1 =>
    obtain ⟨g, hRest, hFill⟩ := Option.bind_eq_some_iff.mp h
    exact isAddress_of_fill? ((small_of_forall rfl rfl).rest? hRest) hFill
  case h_2 => cases h
  case h_3 => cases h
  case h_4 => cases h
  case h_5 =>
    obtain ⟨g, hRest, hFill⟩ := Option.bind_eq_some_iff.mp h
    exact isAddress_of_fill? ((small_of_forall rfl rfl).rest? hRest) hFill

end Ipv6

end TripPlanner.Url
