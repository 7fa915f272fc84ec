import TripPlanner.Proofs.Json.Trees
import Mathlib.Data.List.Forall2
import Mathlib.Data.List.Nodup

/-!
# Records read by name

A record that has been written names each of its members once. It is read with the same members
under the same names, whatever names are asked for (`Fields.named?_ofValue`,
`Fields.read?_ofValue`). Members may be left out before it is read where there are usual values to
stand for them (`Fields.given_without`).
-/

namespace TripPlanner.Json

/-! ## Circumstances -/

theorem Reading.inner?_eq_some {r inner : Reading} (h : r.inner? = some inner) :
    0 < r.depth ∧ inner.depth = r.depth - 1 := by
  rw [inner?] at h
  split at h
  case isTrue => cases h
  case isFalse hDepth =>
    cases h
    exact ⟨Nat.pos_of_ne_zero hDepth, rfl⟩

/-- The circumstances some levels inside a document. -/
def Reading.within (levels : Nat) : Reading := { document with depth := document.depth - levels }

theorem Reading.within_inner? (levels : Nat) (h : levels < document.depth) :
    (within levels).inner? = some (within (levels + 1)) := by
  have hDepth : ¬ document.depth - levels = 0 := Nat.sub_ne_zero_of_lt h
  exact if_neg hDepth

/-! ## Entries -/

/-- Members as trees by name. -/
def Members.trees (ms : Members) : List (String × Tree) := ms.map fun m => (m.1, .ofValue m.2)

theorem Members.lookup_trees (ms : Members) (name : String) :
    ms.trees.lookup name = (ms.lookup name).map Tree.ofValue := by
  induction ms with
  | nil => rfl
  | cons m ms ih =>
    rw [trees, List.map_cons, List.lookup_cons, List.lookup_cons, ← trees, ih]
    split
    · rfl
    · rfl

theorem lookup_filter {α : Type} (p : String → Bool) (l : List (String × α)) (name : String) :
    (l.filter fun entry => p entry.1).lookup name = if p name then l.lookup name else none := by
  induction l with
  | nil => simp
  | cons entry l ih =>
    rw [List.filter_cons]
    split
    all_goals grind

theorem lookup_of_mem {α : Type} {l : List (String × α)} (hNodup : (l.map Prod.fst).Nodup)
    {name : String} {a : α} (h : (name, a) ∈ l) : l.lookup name = some a := by
  induction l with
  | nil => cases h
  | cons entry l ih =>
    obtain ⟨hFresh, hRest⟩ := List.nodup_cons.mp hNodup
    rcases List.mem_cons.mp h with rfl | hMem
    · exact List.lookup_cons_self
    · have hOther : name ≠ entry.1 := fun hSame =>
        hFresh (hSame ▸ List.mem_map_of_mem (f := Prod.fst) hMem)
      rw [List.lookup_cons, beq_false_of_ne hOther]
      exact ih hRest hMem

theorem lookup_reverse {α : Type} {l : List (String × α)} (hNodup : (l.map Prod.fst).Nodup)
    (name : String) : l.reverse.lookup name = l.lookup name := by
  cases hFound : l.lookup name with
  | none =>
    rw [List.lookup_eq_none_iff] at hFound ⊢
    exact fun entry hMem => hFound entry (List.mem_reverse.mp hMem)
  | some a =>
    obtain ⟨before, after, rfl, -⟩ := List.lookup_eq_some_iff.mp hFound
    refine lookup_of_mem ?_ (by simp)
    rw [List.map_reverse]
    exact List.nodup_reverse.mpr hNodup

/-- The member of a name; of a name that stands twice, the last one. -/
def Tree.last? (members : List (Option String × Tree)) (name : String) : Option Tree :=
  members.reverse.lookup (some name)

theorem Tree.last?_map (entries : List (String × Tree)) (name : String) :
    last? (entries.map fun entry => (some entry.1, entry.2)) name =
      entries.reverse.lookup name := by
  rw [last?, ← List.map_reverse]
  induction entries.reverse with
  | nil => rfl
  | cons entry rest ih =>
    rw [List.map_cons, List.lookup_cons, List.lookup_cons, ih]
    rfl

/-- Members that are written only where they have a value. -/
def Members.present (entries : List (String × Option Value)) : Members :=
  entries.flatMap fun entry => (entry.2.map fun v => (entry.1, v)).toList

theorem Members.sublist_present (entries : List (String × Option Value)) :
    ((present entries).map Prod.fst).Sublist (entries.map Prod.fst) := by
  induction entries with
  | nil => exact List.Sublist.refl _
  | cons entry entries ih =>
    obtain ⟨name, v⟩ := entry
    rw [present, List.flatMap_cons, List.map_append, List.map_cons]
    cases v with
    | none => exact ih.cons _
    | some v => exact ih.cons_cons _

theorem Members.lookup_present {entries : List (String × Option Value)}
    (hNodup : (entries.map Prod.fst).Nodup) {name : String} {v : Option Value}
    (h : (name, v) ∈ entries) : (present entries).lookup name = v := by
  induction entries with
  | nil => cases h
  | cons entry entries ih =>
    obtain ⟨hFresh, hRest⟩ := List.nodup_cons.mp hNodup
    rw [present, List.flatMap_cons, List.lookup_append, ← present]
    rcases List.mem_cons.mp h with rfl | hMem
    · have hNone : (present entries).lookup name = none := by
        rw [List.lookup_eq_none_iff]
        intro m hMem
        refine bne_iff_ne.mpr ?_
        rintro rfl
        exact hFresh ((sublist_present entries).subset (List.mem_map_of_mem hMem))
      cases v <;> simp [hNone]
    · have hOther : name ≠ entry.1 := fun hSame =>
        hFresh (hSame ▸ List.mem_map_of_mem (f := Prod.fst) hMem)
      have hNone : (entry.2.map fun v => (entry.1, v)).toList.lookup name = none := by
        cases entry.2 <;> simp [hOther]
      rw [hNone, Option.none_or, ih hRest hMem]

namespace Fields

variable {names : List String} {r inner : Reading} {ms : Members}

theorem entries?_ofMembers (ms : Members) : entries? (Tree.ofMembers ms) = some ms.trees := by
  induction ms with
  | nil => rfl
  | cons m ms ih =>
    obtain ⟨name, v⟩ := m
    simp only [Tree.ofMembers, entries?, ih, Option.bind_eq_bind, Option.bind_some]
    rfl

theorem distinct_iff {known : List (String × Tree)} :
    distinct known = true ↔ (known.map Prod.fst).Nodup := by
  induction known with
  | nil => simp [distinct]
  | cons entry known ih =>
    obtain ⟨name, t⟩ := entry
    rw [distinct, Bool.and_eq_true, ih, Option.isNone_iff_eq_none, List.lookup_eq_none_iff,
      List.map_cons, List.nodup_cons, List.mem_map]
    grind

/-- A record that has been written, read by some names. -/
theorem named?_ofValue (hInner : r.inner? = some inner) (hNodup : (ms.map Prod.fst).Nodup) :
    named? names r (.ofValue (.record ms)) =
      some (⟨ms.trees.filter fun entry => names.contains entry.1, false, inner⟩,
        ms.trees.filter fun entry => !names.contains entry.1) := by
  have hDistinct : distinct (ms.trees.filter fun entry => names.contains entry.1) = true := by
    rw [distinct_iff]
    refine (List.filter_sublist.map Prod.fst).nodup ?_
    rwa [Members.trees, List.map_map]
  simp only [Tree.ofValue, named?, hInner, entries?_ofMembers, Option.bind_eq_bind,
    Option.bind_some, hDistinct, if_true]

/-- A record that has been written, read by names that include those of its members. -/
theorem read?_ofValue (hInner : r.inner? = some inner) (hNodup : (ms.map Prod.fst).Nodup)
    (hKnown : ∀ m ∈ ms, m.1 ∈ names) :
    read? names r (.ofValue (.record ms)) = some ⟨ms.trees, false, inner⟩ := by
  have hAll : ms.trees.filter (fun entry => names.contains entry.1) = ms.trees := by
    rw [List.filter_eq_self]
    intro entry hMem
    obtain ⟨m, hMember, rfl⟩ := List.mem_map.mp hMem
    exact List.contains_iff_mem.mpr (hKnown m hMember)
  have hNamed : named? names r (.ofValue (.record ms)) = _ := named?_ofValue hInner hNodup
  rw [hAll] at hNamed
  exact congrArg (Option.map (·.1)) hNamed

theorem entries?_eq_some_iff {members : List (Option String × Tree)}
    {entries : List (String × Tree)} : entries? members = some entries ↔
      members = entries.map fun entry => (some entry.1, entry.2) := by
  induction members generalizing entries with
  | nil => cases entries <;> simp [entries?]
  | cons m members ih =>
    obtain ⟨name, t⟩ := m
    simp only [entries?, Option.bind_eq_bind, Option.bind_eq_some_iff, ih, Option.some.injEq]
    constructor
    · rintro ⟨key, rfl, others, rfl, rfl⟩
      rfl
    · intro hMembers
      obtain ⟨⟨key, other⟩, others, rfl, hFirst, hRest⟩ := List.map_eq_cons_iff.mp hMembers.symm
      cases hFirst
      exact ⟨key, rfl, others, hRest.symm, rfl⟩

/-- What it takes to read a record by its member names alone. -/
theorem named?_eq_some {t : Tree} {fields : Fields} {others : List (String × Tree)}
    (h : named? names r t = some (fields, others)) :
    ∃ (entries : List (String × Tree)) (inner : Reading), r.inner? = some inner ∧
      t = .record (entries.map fun entry => (some entry.1, entry.2)) ∧
      fields = ⟨entries.filter fun entry => names.contains entry.1, false, inner⟩ ∧
      (fields.known.map Prod.fst).Nodup ∧
      others = entries.filter fun entry => !names.contains entry.1 := by
  cases t with
  | record members =>
    simp only [named?, Option.bind_eq_bind, Option.bind_eq_some_iff, Option.ite_none_right_eq_some,
      Option.some.injEq, Prod.mk.injEq] at h
    obtain ⟨inner, hInner, entries, hEntries, hDistinct, rfl, rfl⟩ := h
    rw [entries?_eq_some_iff] at hEntries
    exact ⟨entries, inner, hInner, by rw [hEntries], rfl, distinct_iff.mp hDistinct, rfl⟩
  | _ => cases h

/-- A record is given by its member names, or as a list. -/
theorem read?_cases {t : Tree} {fields : Fields} (h : read? names r t = some fields) :
    (∃ members others, t = .record members ∧
      named? names r (.record members) = some (fields, others)) ∨
    ∃ items inner, t = .list items ∧ r.inner? = some inner ∧
      fields = ⟨names.zip items, true, inner⟩ := by
  cases t with
  | list items =>
    rw [read?] at h
    split at h
    case isTrue =>
      obtain ⟨inner, hInner, rfl⟩ := Option.map_eq_some_iff.mp h
      exact .inr ⟨items, inner, rfl, hInner, rfl⟩
    case isFalse => cases h
  | record members =>
    obtain ⟨⟨_, others⟩, hNamed, rfl⟩ := Option.map_eq_some_iff.mp h
    exact .inl ⟨members, others, rfl, hNamed⟩
  | _ => cases h

/-- The members of a record are read one level deeper than it stands. -/
theorem read?_reading {t : Tree} {fields : Fields} (h : read? names r t = some fields) :
    r.inner? = some fields.reading := by
  rcases read?_cases h with ⟨members, others, -, hNamed⟩ | ⟨items, inner, -, hInner, rfl⟩
  · obtain ⟨_, inner, hInner, -, rfl, -⟩ := named?_eq_some hNamed
    exact hInner
  · exact hInner

/-- Members that are their own values are carried along as they are. -/
theorem values?_trees {fields : Fields} (hFits : ms.Fits fields.reading.depth)
    (hOrdered : ms.Ordered) : fields.values? ms.trees = some ms := by
  have hTrees : ms.trees.map (fun entry => (some entry.1, entry.2)) = Tree.ofMembers ms := by
    induction ms with
    | nil => rfl
    | cons m ms ih =>
      exact congrArg ((some m.1, Tree.ofValue m.2) :: ·) (ih
        (fun other hMem => hFits other (List.mem_cons_of_mem _ hMem))
        (List.pairwise_cons.mp hOrdered).2)
  rw [values?, hTrees, hFits.members?_ofMembers, Option.map_some,
    Members.sorted_of_ordered hOrdered]

theorem lookup_known {members : List (Option String × Tree)} {fields : Fields}
    {others : List (String × Tree)} (h : named? names r (.record members) = some (fields, others))
    {name : String} (hKnown : name ∈ names) :
    fields.known.lookup name = Tree.last? members name := by
  obtain ⟨entries, inner, -, hRecord, rfl, hNodup, -⟩ := named?_eq_some h
  cases hRecord
  rw [Tree.last?_map, ← lookup_reverse hNodup, ← List.filter_reverse, lookup_filter,
    if_pos (List.contains_iff_mem.mpr hKnown)]

/-- The values of the members that no name asks for. -/
theorem lookup_values? {members : List (Option String × Tree)} {fields : Fields}
    {others : List (String × Tree)} {values : Members}
    (h : named? names r (.record members) = some (fields, others))
    (hValues : fields.values? others = some values) (name : String) :
    (if name ∈ names then none else Tree.last? members name).map (Tree.value? (r.depth - 1)) =
      (values.lookup name).map some := by
  obtain ⟨entries, inner, hInner, hRecord, rfl, -, rfl⟩ := named?_eq_some h
  cases hRecord
  obtain ⟨vs, hMembers, rfl⟩ := Option.map_eq_some_iff.mp hValues
  obtain ⟨-, hDepth⟩ := Reading.inner?_eq_some hInner
  rw [Members.lookup_sorted, ← Tree.members?_lookup name hMembers, ← Tree.last?, Tree.last?_map,
    Tree.last?_map, ← List.filter_reverse,
    lookup_filter (fun name => !names.contains name) entries.reverse name, hDepth]
  by_cases hName : name ∈ names
  · simp [hName]
  · simp [hName]

end Fields

/-! ## Members left out -/

/-- Members without those of some names. -/
def Members.without (removed : List String) (ms : Members) : Members :=
  ms.filter fun m => !removed.contains m.1

/-- A record without the members of some names. -/
def Value.without (removed : List String) : Value → Value
  | .record members => .record (Members.without removed members)
  | v => v

/-- A record in which the value of a member is changed. -/
def Value.changing (name : String) (change : Value → Value) : Value → Value
  | .record members =>
    .record (members.map fun m => if m.1 = name then (m.1, change m.2) else m)
  | v => v

namespace Fields

variable {names : List String} {r inner : Reading} {ms : Members}

/-- A record that has been written, read after some members have been left out. -/
theorem read?_without (hInner : r.inner? = some inner) (hNames : ms.map Prod.fst = names)
    (hNodup : names.Nodup) (removed : List String) :
    read? names r (.ofValue ((Value.record ms).without removed)) =
      some ⟨Members.trees (ms.without removed), false, inner⟩ := by
  have hLeft : (ms.without removed).Sublist ms := List.filter_sublist
  rw [← hNames] at hNodup ⊢
  exact read?_ofValue hInner ((hLeft.map Prod.fst).nodup hNodup) fun m hMem =>
    List.mem_map_of_mem (hLeft.subset hMem)

/-- A member that has been left out has the usual value, any other one its own. -/
theorem given_without {α : Type} {shape : Shape α} {removed : List String} {positional : Bool}
    {name : String} {v : Value} {own usual : α} (hMember : ms.lookup name = some v)
    (hRead : shape inner (.ofValue v) = some own) :
    given ⟨Members.trees (ms.without removed), positional, inner⟩ name shape usual =
      some (if name ∈ removed then usual else own) := by
  have hLookup : (ms.without removed).lookup name = if name ∈ removed then none else some v := by
    rw [Members.without, lookup_filter fun name => !removed.contains name, hMember]
    by_cases hName : name ∈ removed
    · simp [hName]
    · simp [hName]
  rw [given, Members.lookup_trees, hLookup]
  by_cases hName : name ∈ removed
  · rw [if_pos hName, if_pos hName]
    rfl
  · rw [if_neg hName, if_neg hName]
    exact hRead

/-- The same of a reader that goes on from the member. -/
theorem bind_given_without {α β : Type} {shape : Shape α} {removed : List String}
    {positional : Bool} {name : String} {v : Value} {own usual : α} {next : α → Option β} {b : β}
    (hMember : ms.lookup name = some v) (hRead : shape inner (.ofValue v) = some own)
    (hNext : next (if name ∈ removed then usual else own) = some b) :
    (given ⟨Members.trees (ms.without removed), positional, inner⟩ name shape usual >>= next) =
      some b :=
  Option.bind_eq_some_iff.mpr ⟨_, given_without hMember hRead, hNext⟩

end Fields

/-! ## Lists -/

namespace Shape

variable {α β : Type} {shape : Shape α} {r : Reading}

theorem each_eq_some_iff {ts : List Tree} {as : List α} :
    each shape r ts = some as ↔ List.Forall₂ (fun t a => shape r t = some a) ts as := by
  induction ts generalizing as with
  | nil => simp [each, eq_comm]
  | cons t ts ih =>
    simp only [each, Option.bind_eq_bind, Option.bind_eq_some_iff, ih, Option.some.injEq,
      List.forall₂_cons_left_iff, eq_comm (b := as)]
    grind

theorem list_eq_some {t : Tree} {as : List α} (h : list shape r t = some as) :
    ∃ items inner, t = .list items ∧ r.inner? = some inner ∧
      List.Forall₂ (fun t a => shape inner t = some a) items as := by
  cases t with
  | list items =>
    obtain ⟨inner, hInner, hItems⟩ := Option.bind_eq_some_iff.mp h
    exact ⟨items, inner, rfl, hInner, each_eq_some_iff.mp hItems⟩
  | _ => cases h

/-- Whatever holds of what is read from items holds of all items of the list. -/
theorem forall_mem_of_forall₂ {R : Tree → α → Prop} {P : α → Prop} (h : ∀ t a, R t a → P a)
    {ts : List Tree} {as : List α} (hItems : List.Forall₂ R ts as) : ∀ a ∈ as, P a := by
  induction hItems with
  | nil => nofun
  | cons hFirst _ ih => exact List.forall_mem_cons.mpr ⟨h _ _ hFirst, ih⟩

theorem list_ofValue {toValue : α → Value} {next : α → α} {inner : Reading} {as : List α}
    (hInner : r.inner? = some inner)
    (h : ∀ a ∈ as, shape inner (.ofValue (toValue a)) = some (next a)) :
    list shape r (.ofValue (.list (as.map toValue))) = some (as.map next) := by
  have hEach : each shape inner (Tree.ofValues (as.map toValue)) = some (as.map next) := by
    induction as with
    | nil => rfl
    | cons a as ih =>
      simp only [List.map_cons, Tree.ofValues, each, h a List.mem_cons_self,
        ih fun b hMem => h b (List.mem_cons_of_mem _ hMem), Option.bind_eq_bind, Option.bind_some]
  simp only [Tree.ofValue, list, hInner, hEach, Option.bind_some]

end Shape

end TripPlanner.Json
