import TripPlanner.Proofs.Json.Numerals
import TripPlanner.Proofs.Json.Strings
import Mathlib.Data.List.DropRight

/-!
# Values read back

Compact and indented texts differ in the blanks between marks only, so each is the text under a
spacing (`Spacing.tight_text`, `Spacing.spread_text`). Under any spacing a value whose numbers are
legible is read as the tree of that value, whatever follows it (`Spacing.read?_text`). So a shape
that reads a text reads the value that the text was written for (`read?_compact`, `read?_pretty`,
`read?_of_hasText`).
-/

namespace TripPlanner.Json

open Text

/-! ## Spacings -/

/-- The blanks between marks. -/
structure Spacing where
  /-- What stands before an item or a closing mark at a level. -/
  gap : Nat → List Char
  /-- What stands after a colon. -/
  space : List Char
  blank_gap : ∀ level, ∀ c ∈ gap level, isSpace c = true
  blank_space : ∀ c ∈ space, isSpace c = true

namespace Spacing

mutual

/-- The text of a value at a level. -/
def text (σ : Spacing) (level : Nat) : Value → List Char
  | .null => "null".toList
  | .bool b => writeBool b
  | .number n => n.write
  | .text s => quoted s
  | .list [] => ['[', ']']
  | .list (item :: rest) =>
    '[' :: (σ.items (level + 1) (item :: rest) ++ (σ.gap level ++ [']']))
  | .record [] => ['\x7b', '\x7d']
  | .record (member :: rest) =>
    '\x7b' :: (σ.members (level + 1) (member :: rest) ++ (σ.gap level ++ ['\x7d']))

/-- The items of a list that is not empty, with what stands between them. -/
def items (σ : Spacing) (level : Nat) : List Value → List Char
  | [] => []
  | [item] => σ.gap level ++ σ.text level item
  | item :: rest => σ.gap level ++ (σ.text level item ++ ',' :: σ.items level rest)

/-- The members of a record in the same way. -/
def members (σ : Spacing) (level : Nat) : List (String × Value) → List Char
  | [] => []
  | [(name, member)] =>
    σ.gap level ++ (quoted name ++ ':' :: (σ.space ++ σ.text level member))
  | (name, member) :: rest =>
    σ.gap level ++ (quoted name ++ ':' :: (σ.space ++
      (σ.text level member ++ ',' :: σ.members level rest)))

end

/-- No blanks. -/
def tight : Spacing where
  gap := fun _ => []
  space := []
  blank_gap := nofun
  blank_space := nofun

/-- One item or member a line. -/
def spread : Spacing where
  gap := Value.newLine
  space := [' ']
  blank_gap := by
    intro level c hMem
    rcases List.mem_cons.mp hMem with rfl | hMem
    · rfl
    · rw [List.eq_of_mem_replicate hMem]
      rfl
  blank_space := List.forall_mem_singleton.mpr rfl

mutual

theorem tight_text (level : Nat) : ∀ v : Value, tight.text level v = v.write
  | .null => rfl
  | .bool _ => rfl
  | .number _ => rfl
  | .text _ => rfl
  | .list [] => rfl
  | .list (item :: rest) => by
    rw [text, tight_items, Value.write]
    rfl
  | .record [] => rfl
  | .record (member :: rest) => by
    rw [text, tight_members, Value.write]
    rfl

theorem tight_items (level : Nat) : ∀ vs : List Value, tight.items level vs = Value.writeItems vs
  | [] => rfl
  | [item] => by
    rw [items, tight_text, Value.writeItems]
    rfl
  | item :: next :: rest => by
    rw [items, tight_text, tight_items]
    · rfl
    · nofun

theorem tight_members (level : Nat) :
    ∀ ms : List (String × Value), tight.members level ms = Value.writeMembers ms
  | [] => rfl
  | [(name, member)] => by
    rw [members, tight_text, Value.writeMembers]
    rfl
  | (name, member) :: next :: rest => by
    rw [members, tight_text, tight_members]
    · rfl
    · nofun

end

mutual

theorem spread_text (level : Nat) : ∀ v : Value, spread.text level v = v.indent level
  | .null => rfl
  | .bool _ => rfl
  | .number _ => rfl
  | .text _ => rfl
  | .list [] => rfl
  | .list (item :: rest) => by
    rw [text, spread_items, ← List.append_assoc]
    rfl
  | .record [] => rfl
  | .record (member :: rest) => by
    rw [text, spread_members, ← List.append_assoc]
    rfl

theorem spread_items (level : Nat) :
    ∀ vs : List Value, spread.items level vs = Value.indentItems level vs
  | [] => rfl
  | [item] => by
    rw [items, spread_text, Value.indentItems]
    rfl
  | item :: next :: rest => by
    rw [items, spread_text, spread_items]
    · exact (List.append_assoc _ _ _).symm
    · nofun

theorem spread_members (level : Nat) :
    ∀ ms : List (String × Value), spread.members level ms = Value.indentMembers level ms
  | [] => rfl
  | [(name, member)] => by
    rw [members, spread_text, Value.indentMembers]
    exact (List.append_assoc _ _ _).symm
  | (name, member) :: next :: rest => by
    rw [members, spread_text, spread_members]
    · exact (List.append_assoc _ _ _).symm
    · nofun

end

end Spacing

/-! ## Numbers in values -/

namespace Value

mutual

/-- The numbers in a value. -/
def numbers : Value → List Number
  | .null => []
  | .bool _ => []
  | .number n => [n]
  | .text _ => []
  | .list items => itemNumbers items
  | .record members => memberNumbers members

/-- The numbers in some items. -/
def itemNumbers : List Value → List Number
  | [] => []
  | item :: rest => numbers item ++ itemNumbers rest

/-- The numbers in some members. -/
def memberNumbers : List (String × Value) → List Number
  | [] => []
  | (_, member) :: rest => numbers member ++ memberNumbers rest

end

/-- A value whose numbers are read as they were written. -/
def Legible (v : Value) : Prop := ∀ n ∈ v.numbers, n.Legible

@[simp] theorem legible_null : Value.null.Legible := nofun

@[simp] theorem legible_bool (b : Bool) : (Value.bool b).Legible := nofun

@[simp] theorem legible_text (s : String) : (Value.text s).Legible := nofun

@[simp] theorem legible_number {n : Number} : (Value.number n).Legible ↔ n.Legible :=
  List.forall_mem_singleton

theorem legible_list_cons {item : Value} {rest : List Value} :
    (Value.list (item :: rest)).Legible ↔ item.Legible ∧ (Value.list rest).Legible :=
  List.forall_mem_append

theorem legible_record_cons {name : String} {member : Value}
    {rest : List (String × Value)} : (Value.record ((name, member) :: rest)).Legible ↔
      member.Legible ∧ (Value.record rest).Legible :=
  List.forall_mem_append

theorem legible_list {items : List Value} :
    (Value.list items).Legible ↔ ∀ item ∈ items, item.Legible := by
  induction items with
  | nil => exact iff_of_true nofun nofun
  | cons item items ih => rw [legible_list_cons, ih, List.forall_mem_cons]

theorem legible_record {members : List (String × Value)} :
    (Value.record members).Legible ↔ ∀ member ∈ members, member.2.Legible := by
  induction members with
  | nil => exact iff_of_true nofun nofun
  | cons member members ih => rw [legible_record_cons, ih, List.forall_mem_cons]

end Value

/-! ## Blanks -/

theorem skip_append {gap : List Char} (h : ∀ c ∈ gap, isSpace c = true) (rest : List Char) :
    skip (gap ++ rest) = skip rest :=
  List.dropWhile_append_of_pos h

theorem skip_skip (s : List Char) : skip (skip s) = skip s := List.dropWhile_idempotent isSpace s

/-- Blanks do not go on with a numeral. -/
theorem ends_blanks {gap : List Char} (h : ∀ c ∈ gap, isSpace c = true) : Numeral.Ends gap := by
  intro c hMem
  have hSpace := h c (List.mem_of_mem_head? hMem)
  simp only [isSpace, Bool.or_eq_true, beq_iff_eq] at hSpace
  rcases hSpace with ((rfl | rfl) | rfl) | rfl
  all_goals decide

theorem ends_gap {gap : List Char} (h : ∀ c ∈ gap, isSpace c = true) {c : Char}
    (hMark : isDigit c = false ∧ c ≠ '.' ∧ c ≠ 'e' ∧ c ≠ 'E') (rest : List Char) :
    Numeral.Ends (gap ++ c :: rest) := by
  cases gap with
  | nil => exact Numeral.ends_cons hMark rest
  | cons blank gap => exact fun d hMem => ends_blanks h d hMem

namespace Tree

theorem read?_skip (fuel : Nat) (s : List Char) : read? fuel (skip s) = read? fuel s := by
  cases fuel with
  | zero => rfl
  | succ fuel => rw [read?, read?, skip_skip]

theorem items?_skip (fuel : Nat) (s : List Char) : items? fuel (skip s) = items? fuel s := by
  cases fuel with
  | zero => rfl
  | succ fuel => rw [items?, items?, read?_skip]

theorem entries?_skip (fuel : Nat) (s : List Char) : entries? fuel (skip s) = entries? fuel s := by
  cases fuel with
  | zero => rfl
  | succ fuel => rw [entries?, entries?, skip_skip]

theorem read?_append {gap : List Char} (h : ∀ c ∈ gap, isSpace c = true) (fuel : Nat)
    (s : List Char) : read? fuel (gap ++ s) = read? fuel s := by
  rw [← read?_skip, skip_append h, read?_skip]

theorem items?_append {gap : List Char} (h : ∀ c ∈ gap, isSpace c = true) (fuel : Nat)
    (s : List Char) : items? fuel (gap ++ s) = items? fuel s := by
  rw [← items?_skip, skip_append h, items?_skip]

theorem entries?_append {gap : List Char} (h : ∀ c ∈ gap, isSpace c = true) (fuel : Nat)
    (s : List Char) : entries? fuel (gap ++ s) = entries? fuel s := by
  rw [← entries?_skip, skip_append h, entries?_skip]

/-! ## Steps of reading -/

variable {fuel : Nat} {s rest : List Char}

theorem read?_quoted (name : String) :
    read? (fuel + 1) (quoted name ++ rest) = some (.text (some name), rest) := by
  have hString :
      string? (name.toList.flatMap escape ++ ['"'] ++ rest) = some (some name, rest) := by
    rw [List.append_assoc]
    exact string?_quoted name rest
  rw [quoted, List.cons_append, read?, skip_cons (by decide)]
  simp only [hString, Option.map_some]

theorem read?_items (h : (skip s).head? ≠ some ']') :
    read? (fuel + 1) ('[' :: s) = (items? fuel s).map fun found => (.list found.1, found.2) := by
  rw [read?, skip_cons (by decide)]
  simp only
  split
  case h_1 hEq => exact absurd (by rw [hEq]; rfl) h
  case h_2 => rw [items?_skip]

theorem read?_entries (h : (skip s).head? ≠ some '\x7d') :
    read? (fuel + 1) ('\x7b' :: s) =
      (entries? fuel s).map fun found => (.record found.1, found.2) := by
  rw [read?, skip_cons (by decide)]
  simp only
  split
  case h_1 hEq => exact absurd (by rw [hEq]; rfl) h
  case h_2 => rw [entries?_skip]

theorem items?_last {item : Tree} {gap : List Char} (h : ∀ c ∈ gap, isSpace c = true)
    (hItem : read? fuel s = some (item, gap ++ ']' :: rest)) :
    items? (fuel + 1) s = some ([item], rest) := by
  simp only [items?, hItem, Option.bind_eq_bind, Option.bind_some, skip_append h,
    skip_cons (show isSpace ']' = false by decide)]

theorem items?_more {item : Tree} (hItem : read? fuel s = some (item, ',' :: rest)) :
    items? (fuel + 1) s = (items? fuel rest).map fun found => (item :: found.1, found.2) := by
  simp only [items?, hItem, Option.bind_eq_bind, Option.bind_some,
    skip_cons (show isSpace ',' = false by decide), Option.map_eq_bind]
  rfl

theorem entries?_name (name : String) {member : Tree} {after : List Char}
    (hMember : read? fuel s = some (member, after)) :
    entries? (fuel + 1) (quoted name ++ ':' :: s) = (match skip after with
      | ',' :: rest => (entries? fuel rest).map fun found =>
          ((some name, member) :: found.1, found.2)
      | '\x7d' :: rest => some ([(some name, member)], rest)
      | _ => none) := by
  have hString : string? (name.toList.flatMap escape ++ ['"'] ++ ':' :: s) =
      some (some name, ':' :: s) := by
    rw [List.append_assoc]
    exact string?_quoted name _
  rw [quoted, List.cons_append, entries?, skip_cons (by decide)]
  simp only [hString, hMember, Option.bind_eq_bind, Option.bind_some,
    skip_cons (show isSpace ':' = false by decide), Option.map_eq_bind]
  rfl

theorem entries?_last (name : String) {member : Tree} {gap : List Char}
    (h : ∀ c ∈ gap, isSpace c = true)
    (hMember : read? fuel s = some (member, gap ++ '\x7d' :: rest)) :
    entries? (fuel + 1) (quoted name ++ ':' :: s) = some ([(some name, member)], rest) := by
  rw [entries?_name name hMember, skip_append h, skip_cons (by decide)]
  rfl

theorem entries?_more (name : String) {member : Tree}
    (hMember : read? fuel s = some (member, ',' :: rest)) :
    entries? (fuel + 1) (quoted name ++ ':' :: s) =
      (entries? fuel rest).map fun found => ((some name, member) :: found.1, found.2) := by
  rw [entries?_name name hMember, skip_cons (by decide)]
  rfl

end Tree

/-! ## Texts -/

namespace Spacing

variable (σ : Spacing)

/-- A value begins with a mark, a digit or a letter. -/
theorem text_cons {v : Value} (h : v.Legible) (level : Nat) :
    ∃ c more, σ.text level v = c :: more ∧ isSpace c = false ∧ c ≠ ']' := by
  cases v with
  | null => exact ⟨'n', _, rfl, by decide⟩
  | bool b => cases b with
    | false => exact ⟨'f', _, rfl, by decide⟩
    | true => exact ⟨'t', _, rfl, by decide⟩
  | number n =>
    obtain ⟨m, hProper, hWrite⟩ := Number.exists_numeral (h n List.mem_cons_self).isWritten
    obtain ⟨c, more, hText, hHead⟩ := Numeral.exists_cons hProper []
    rw [List.append_nil] at hText
    exact ⟨c, more, hWrite.trans hText, Numeral.isSpace_of_begins hHead,
      Numeral.ne_of_begins hHead rfl⟩
  | text s => exact ⟨'"', _, rfl, by decide⟩
  | list items => cases items with
    | nil => exact ⟨'[', _, rfl, by decide⟩
    | cons item rest => exact ⟨'[', _, by rw [text], by decide⟩
  | record members => cases members with
    | nil => exact ⟨'\x7b', _, rfl, by decide⟩
    | cons member rest => exact ⟨'\x7b', _, by rw [text], by decide⟩

theorem head?_items {item : Value} (h : item.Legible) (level : Nat) (rest : List Value)
    (after : List Char) : (skip (σ.items level (item :: rest) ++ after)).head? ≠ some ']' := by
  obtain ⟨c, more, hText, hSpace, hBracket⟩ := σ.text_cons h level
  have hHead : ∀ after, (skip (σ.gap level ++ (c :: more ++ after))).head? ≠ some ']' :=
    fun after => by
      rw [skip_append (σ.blank_gap level), List.cons_append, skip_cons hSpace, List.head?_cons]
      simpa using hBracket
  cases rest with
  | nil =>
    rw [items, List.append_assoc, hText]
    exact hHead _
  | cons next rest =>
    rw [items, List.append_assoc, List.append_assoc, hText]
    · exact hHead _
    · nofun

theorem head?_members (member : String × Value) (level : Nat) (rest : List (String × Value))
    (after : List Char) :
    (skip (σ.members level (member :: rest) ++ after)).head? ≠ some '\x7d' := by
  have hHead : ∀ after, (skip (σ.gap level ++ (quoted member.1 ++ after))).head? ≠ some '\x7d' :=
    fun after => by
      rw [skip_append (σ.blank_gap level), quoted, List.cons_append, skip_cons (by decide)]
      nofun
  cases rest with
  | nil =>
    rw [members, List.append_assoc, List.append_assoc]
    exact hHead _
  | cons next rest =>
    rw [members, List.append_assoc, List.append_assoc]
    · exact hHead _
    · nofun

theorem ends_bracket (level : Nat) (rest : List Char) :
    Numeral.Ends (σ.gap level ++ ']' :: rest) := ends_gap (σ.blank_gap level) (by decide) rest

theorem ends_brace (level : Nat) (rest : List Char) :
    Numeral.Ends (σ.gap level ++ '\x7d' :: rest) := ends_gap (σ.blank_gap level) (by decide) rest

theorem ends_comma (rest : List Char) : Numeral.Ends (',' :: rest) :=
  Numeral.ends_cons (by decide) rest

theorem length_text_pos {v : Value} (h : v.Legible) (level : Nat) :
    0 < (σ.text level v).length := by
  obtain ⟨c, more, hText, -, -⟩ := σ.text_cons h level
  rw [hText]
  exact Nat.succ_pos _

-- A character pays for two steps: into its value, and from there along the items or members.
mutual

/-- A value is read as it was written, whatever follows it that does not go on with a numeral. -/
theorem read?_text : ∀ (v : Value) (level fuel : Nat) {rest : List Char}, v.Legible →
    Numeral.Ends rest → 2 * (σ.text level v).length ≤ fuel + 1 →
      Tree.read? (fuel + 1) (σ.text level v ++ rest) = some (.ofValue v, rest)
  | .null, _, _, _, _, _, _ => rfl
  | .bool true, _, _, _, _, _, _ => rfl
  | .bool false, _, _, _, _, _, _ => rfl
  | .number n, _, fuel, _, hLegible, hEnds, _ =>
    Tree.read?_number (hLegible n List.mem_cons_self) hEnds fuel
  | .text s, _, _, _, _, _, _ => Tree.read?_quoted s
  | .list [], _, _, _, _, _, _ => rfl
  | .list (item :: items), level, fuel, rest, hLegible, _, hFuel => by
    rw [text] at hFuel ⊢
    simp only [List.length_cons, List.length_append] at hFuel
    obtain ⟨less, rfl⟩ := Nat.exists_eq_succ_of_ne_zero (show fuel ≠ 0 by omega)
    have hItem := (Value.legible_list_cons.mp hLegible).1
    rw [List.cons_append, List.append_assoc, List.append_assoc, List.singleton_append,
      Tree.read?_items (σ.head?_items hItem _ _ _),
      items?_items (item :: items) _ _ _ _ (List.cons_ne_nil _ _) hLegible (by omega)]
    rfl
  | .record [], _, _, _, _, _, _ => rfl
  | .record ((name, member) :: members), level, fuel, rest, hLegible, _, hFuel => by
    rw [text] at hFuel ⊢
    simp only [List.length_cons, List.length_append] at hFuel
    obtain ⟨less, rfl⟩ := Nat.exists_eq_succ_of_ne_zero (show fuel ≠ 0 by omega)
    rw [List.cons_append, List.append_assoc, List.append_assoc, List.singleton_append,
      Tree.read?_entries (σ.head?_members _ _ _ _),
      entries?_members ((name, member) :: members) _ _ _ _ (List.cons_ne_nil _ _) hLegible
        (by omega)]
    rfl

theorem items?_items : ∀ (items : List Value) (level above fuel : Nat) (rest : List Char),
    items ≠ [] → (Value.list items).Legible → 2 * (σ.items level items).length ≤ fuel →
      Tree.items? (fuel + 1) (σ.items level items ++ (σ.gap above ++ ']' :: rest)) =
        some (Tree.ofValues items, rest)
  | [], _, _, _, _, hNe, _, _ => absurd rfl hNe
  | [item], level, above, fuel, rest, _, hLegible, hFuel => by
    have hItem := (Value.legible_list_cons.mp hLegible).1
    have hPos := σ.length_text_pos hItem level
    rw [items] at hFuel ⊢
    rw [List.length_append] at hFuel
    obtain ⟨less, rfl⟩ := Nat.exists_eq_succ_of_ne_zero (show fuel ≠ 0 by omega)
    rw [List.append_assoc, Tree.items?_append (σ.blank_gap level)]
    exact Tree.items?_last (σ.blank_gap above)
      (read?_text item level less hItem (σ.ends_bracket above rest) (by omega))
  | item :: next :: items, level, above, fuel, rest, _, hLegible, hFuel => by
    obtain ⟨hItem, hItems⟩ := Value.legible_list_cons.mp hLegible
    have hPos := σ.length_text_pos hItem level
    have hText : σ.items level (item :: next :: items) =
        σ.gap level ++ (σ.text level item ++ ',' :: σ.items level (next :: items)) := by
      rw [Spacing.items]
      nofun
    rw [hText] at hFuel ⊢
    simp only [List.length_append, List.length_cons] at hFuel
    obtain ⟨less, rfl⟩ := Nat.exists_eq_succ_of_ne_zero (show fuel ≠ 0 by omega)
    rw [List.append_assoc, List.append_assoc, List.cons_append,
      Tree.items?_append (σ.blank_gap level),
      Tree.items?_more (read?_text item level less hItem (ends_comma _) (by omega)),
      items?_items (next :: items) level above less rest (List.cons_ne_nil _ _) hItems (by omega)]
    rfl

theorem entries?_members : ∀ (members : List (String × Value)) (level above fuel : Nat)
    (rest : List Char), members ≠ [] → (Value.record members).Legible →
      2 * (σ.members level members).length ≤ fuel →
        Tree.entries? (fuel + 1) (σ.members level members ++ (σ.gap above ++ '\x7d' :: rest)) =
          some (Tree.ofMembers members, rest)
  | [], _, _, _, _, hNe, _, _ => absurd rfl hNe
  | [(name, member)], level, above, fuel, rest, _, hLegible, hFuel => by
    have hMember := (Value.legible_record_cons.mp hLegible).1
    have hPos := σ.length_text_pos hMember level
    rw [members] at hFuel ⊢
    simp only [List.length_append, List.length_cons] at hFuel
    obtain ⟨less, rfl⟩ := Nat.exists_eq_succ_of_ne_zero (show fuel ≠ 0 by omega)
    have hRead := read?_text member level less hMember (σ.ends_brace above rest) (by omega)
    rw [← Tree.read?_append σ.blank_space] at hRead
    rw [List.append_assoc, List.append_assoc, List.cons_append, List.append_assoc,
      Tree.entries?_append (σ.blank_gap level)]
    exact Tree.entries?_last name (σ.blank_gap above) hRead
  | (name, member) :: (next, other) :: members, level, above, fuel, rest, _, hLegible, hFuel => by
    obtain ⟨hMember, hMembers⟩ := Value.legible_record_cons.mp hLegible
    have hPos := σ.length_text_pos hMember level
    have hText : σ.members level ((name, member) :: (next, other) :: members) =
        σ.gap level ++ (quoted name ++ ':' :: (σ.space ++
          (σ.text level member ++ ',' :: σ.members level ((next, other) :: members)))) := by
      rw [Spacing.members]
      nofun
    rw [hText] at hFuel ⊢
    simp only [List.length_append, List.length_cons] at hFuel
    obtain ⟨less, rfl⟩ := Nat.exists_eq_succ_of_ne_zero (show fuel ≠ 0 by omega)
    have hRead := read?_text member level less hMember (ends_comma
      (σ.members level ((next, other) :: members) ++ (σ.gap above ++ '\x7d' :: rest))) (by omega)
    rw [← Tree.read?_append σ.blank_space] at hRead
    rw [List.append_assoc, List.append_assoc, List.cons_append, List.append_assoc,
      List.append_assoc, List.cons_append, Tree.entries?_append (σ.blank_gap level),
      Tree.entries?_more name hRead,
      entries?_members ((next, other) :: members) level above less rest (List.cons_ne_nil _ _)
        hMembers (by omega)]
    rfl

end

/-- A whole text is read as the tree of its value, blanks at its end aside. -/
theorem ofText?_text {v : Value} (h : v.Legible) {after : List Char}
    (hBlank : ∀ c ∈ after, isSpace c = true) :
    Tree.ofText? (σ.text 0 v ++ after) = some (.ofValue v) := by
  have hFuel : 2 * (σ.text 0 v).length ≤ 2 * (σ.text 0 v ++ after).length + 2 := by
    rw [List.length_append]
    omega
  have hEnd : skip after = [] := List.dropWhile_eq_nil_iff.mpr hBlank
  simp only [Tree.ofText?, σ.read?_text v 0 _ h (ends_blanks hBlank) hFuel, Option.bind_eq_bind,
    Option.bind_some, hEnd, List.isEmpty_nil, if_true]

end Spacing

/-! ## Shapes on texts -/

variable {α : Type} {v : Value}

/-- A shape reads the value that a compact text was written for. -/
theorem read?_compact (shape : Shape α) (h : v.Legible) :
    read? shape v.compact = shape .document (.ofValue v) := by
  have hText : Tree.ofText? (Spacing.tight.text 0 v ++ []) = some (.ofValue v) :=
    Spacing.tight.ofText?_text h nofun
  rw [List.append_nil, Spacing.tight_text] at hText
  rw [read?, Value.compact, String.toList_ofList, hText, Option.bind_some]

/-- A shape reads the value that an indented text was written for, blanks at its end aside. -/
theorem read?_pretty (shape : Shape α) (h : v.Legible) {after : String}
    (hBlank : ∀ c ∈ after.toList, isSpace c = true) :
    read? shape (v.pretty ++ after) = shape .document (.ofValue v) := by
  have hText := Spacing.spread.ofText?_text h hBlank
  rw [Spacing.spread_text] at hText
  rw [read?, String.toList_append, Value.pretty, String.toList_ofList, hText, Option.bind_some]

/-- A text that a value is written as, compactly or with indentation. -/
def Value.HasText (v : Value) (s : String) : Prop := s = v.compact ∨ s = v.pretty

/-- A shape reads the value that a text was written for. -/
theorem read?_of_hasText (shape : Shape α) (h : v.Legible) {s : String} (hText : v.HasText s) :
    read? shape s = shape .document (.ofValue v) := by
  rcases hText with rfl | rfl
  · exact read?_compact shape h
  · have hPretty := read?_pretty shape h (show ∀ c ∈ "".toList, isSpace c = true from nofun)
    rwa [String.append_empty] at hPretty

end TripPlanner.Json
