import TripPlanner.Json.Shape
import Mathlib.Data.String.Basic
import Mathlib.Tactic.SplitIfs

/-!
# Trees and values

Members that are carried along are sorted by name, and of a name that stands twice the last value
counts (`Members.lookup_sorted`). Sorting again changes nothing (`Members.sorted_of_ordered`). So
the value of a tree, given as a tree again, has itself as its value (`Tree.fits_value?`), also where
more levels may be opened (`Tree.value?_mono`).

* `Members.Ordered`: members sorted by name, each name once.
* `Value.Fits`: a value that is its own value at a depth.
-/

namespace TripPlanner.Json

/-! ## Sorted members -/

namespace Members

/-- Members sorted by name, each name once. -/
def Ordered (ms : Members) : Prop := ms.Pairwise fun a b => a.1 < b.1

variable {ms : Members}

theorem lookup_insert (name : String) (value : Value) (ms : Members) (other : String) :
    (insert name value ms).lookup other = if other = name then some value else ms.lookup other := by
  induction ms with
  | nil => grind [insert]
  | cons m ms ih =>
    obtain ⟨key, old⟩ := m
    rw [insert]
    split_ifs
    all_goals grind

theorem mem_insert {name : String} {value : Value} {m : String × Value}
    (h : m ∈ insert name value ms) : m = (name, value) ∨ m ∈ ms := by
  induction ms with
  | nil => exact .inl (List.mem_singleton.mp h)
  | cons first ms ih =>
    obtain ⟨key, old⟩ := first
    rw [insert] at h
    split_ifs at h
    all_goals grind

theorem Ordered.insert (h : ms.Ordered) (name : String) (value : Value) :
    (Members.insert name value ms).Ordered := by
  induction ms with
  | nil => exact List.pairwise_singleton _ _
  | cons m ms ih =>
    obtain ⟨key, old⟩ := m
    obtain ⟨hFirst, hRest⟩ := List.pairwise_cons.mp h
    rw [Members.insert]
    split_ifs with hBefore hSame
    · refine List.pairwise_cons.mpr ⟨fun m hMem => ?_, h⟩
      rcases List.mem_cons.mp hMem with rfl | hMem
      · exact hBefore
      · exact lt_trans hBefore (hFirst m hMem)
    · exact List.pairwise_cons.mpr ⟨fun m hMem => hSame ▸ hFirst m hMem, hRest⟩
    · refine List.pairwise_cons.mpr ⟨fun m hMem => ?_, ih hRest⟩
      rcases mem_insert hMem with rfl | hMem
      · exact lt_of_le_of_ne (not_lt.mp hBefore) (Ne.symm hSame)
      · exact hFirst m hMem

/-- A name after all others goes to the end. -/
theorem insert_last {name : String} (h : ∀ m ∈ ms, m.1 < name) (value : Value) :
    insert name value ms = ms ++ [(name, value)] := by
  induction ms with
  | nil => rfl
  | cons m ms ih =>
    obtain ⟨key, old⟩ := m
    have hKey : key < name := h (key, old) List.mem_cons_self
    rw [insert, if_neg (lt_asymm hKey), if_neg (ne_of_gt hKey),
      ih fun m hMem => h m (List.mem_cons_of_mem _ hMem), List.cons_append]

/-- Members set one after another among sorted ones. -/
def setAll (sorted ms : Members) : Members :=
  ms.foldl (fun sorted member => insert member.1 member.2 sorted) sorted

theorem sorted_eq (ms : Members) : ms.sorted = setAll [] ms := rfl

theorem setAll_cons (sorted : Members) (m : String × Value) (ms : Members) :
    setAll sorted (m :: ms) = setAll (insert m.1 m.2 sorted) ms := rfl

theorem lookup_setAll (sorted ms : Members) (name : String) :
    (setAll sorted ms).lookup name = (ms.reverse.lookup name).or (sorted.lookup name) := by
  induction ms generalizing sorted with
  | nil => rfl
  | cons m ms ih =>
    rw [setAll_cons, ih, lookup_insert, List.reverse_cons, List.lookup_append, Option.or_assoc]
    congr 1
    obtain ⟨key, value⟩ := m
    grind

theorem Ordered.setAll {sorted : Members} (h : sorted.Ordered) (ms : Members) :
    (Members.setAll sorted ms).Ordered := by
  induction ms generalizing sorted with
  | nil => exact h
  | cons m ms ih => exact ih (h.insert m.1 m.2)

theorem mem_setAll {sorted : Members} {m : String × Value} (h : m ∈ setAll sorted ms) :
    m ∈ sorted ∨ m ∈ ms := by
  induction ms generalizing sorted with
  | nil => exact .inl h
  | cons first ms ih =>
    rcases ih h with hSorted | hRest
    · rcases mem_insert hSorted with rfl | hSorted
      · exact .inr List.mem_cons_self
      · exact .inl hSorted
    · exact .inr (List.mem_cons_of_mem _ hRest)

theorem setAll_of_ordered {sorted : Members} (h : Ordered (sorted ++ ms)) :
    setAll sorted ms = sorted ++ ms := by
  induction ms generalizing sorted with
  | nil => exact (List.append_nil _).symm
  | cons m ms ih =>
    have hBefore : ∀ other ∈ sorted, other.1 < m.1 := fun other hMem =>
      (List.pairwise_append.mp h).2.2 other hMem m List.mem_cons_self
    rw [setAll_cons, insert_last hBefore]
    have hAppend : sorted ++ m :: ms = sorted ++ [(m.1, m.2)] ++ ms := by simp
    rw [hAppend] at h ⊢
    exact ih h

/-- Of a name that stands twice, the last value counts. -/
theorem lookup_sorted (ms : Members) (name : String) :
    ms.sorted.lookup name = ms.reverse.lookup name := by
  rw [sorted_eq, lookup_setAll, List.lookup_nil, Option.or_none]

theorem ordered_sorted (ms : Members) : ms.sorted.Ordered :=
  Ordered.setAll List.Pairwise.nil ms

theorem mem_of_mem_sorted {m : String × Value} (h : m ∈ ms.sorted) : m ∈ ms :=
  (mem_setAll h).resolve_left List.not_mem_nil

/-- Members that are sorted stay as they are. -/
theorem sorted_of_ordered (h : ms.Ordered) : ms.sorted = ms := setAll_of_ordered h

end Members

/-! ## Values of trees -/

namespace Tree

theorem values?_cons {depth : Nat} {t : Tree} {ts : List Tree} {vs : List Value} :
    values? depth (t :: ts) = some vs ↔
      ∃ v rest, t.value? depth = some v ∧ values? depth ts = some rest ∧ vs = v :: rest := by
  rw [values?]
  simp only [Option.bind_eq_bind, Option.bind_eq_some_iff, Option.some.injEq, eq_comm (a := vs)]
  grind

theorem members?_cons {depth : Nat} {name : Option String} {t : Tree}
    {ms : List (Option String × Tree)} {vs : Members} :
    members? depth ((name, t) :: ms) = some vs ↔
      ∃ key v rest, name = some key ∧ t.value? depth = some v ∧ members? depth ms = some rest ∧
        vs = (key, v) :: rest := by
  rw [members?]
  simp only [Option.bind_eq_bind, Option.bind_eq_some_iff, Option.some.injEq]
  grind

/-- The values of members are found under the same names, the last of each name. -/
theorem members?_lookup {depth : Nat} (name : String) :
    ∀ {ms : List (Option String × Tree)} {vs : Members}, members? depth ms = some vs →
      (ms.reverse.lookup (some name)).map (value? depth) = (vs.reverse.lookup name).map some
  | [], _, h => by
    cases h
    rfl
  | (_, t) :: ms, _, h => by
    obtain ⟨key, v, rest, rfl, hFirst, hRest, rfl⟩ := members?_cons.mp h
    have ih := members?_lookup name hRest
    rw [List.reverse_cons, List.lookup_append, List.reverse_cons, List.lookup_append, Option.map_or,
      Option.map_or, ih]
    congr 1
    by_cases hSame : name = key
    · simp [hSame, hFirst]
    · grind

mutual

/-- A tree that has a value at a depth has it at any greater depth. -/
theorem value?_mono : ∀ (t : Tree) {inner outer : Nat} {v : Value}, inner ≤ outer →
    t.value? inner = some v → t.value? outer = some v
  | .null, _, _, _, _, h => h
  | .bool _, _, _, _, _, h => h
  | .number _, _, _, _, _, h => h
  | .text _, _, _, _, _, h => h
  | .list _, 0, _, _, _, h => nomatch h
  | .list items, inner + 1, outer + 1, v, hDepth, h => by
    obtain ⟨vs, hItems, hValue⟩ := Option.map_eq_some_iff.mp h
    exact Option.map_eq_some_iff.mpr
      ⟨vs, values?_mono items (Nat.le_of_succ_le_succ hDepth) hItems, hValue⟩
  | .record _, 0, _, _, _, h => nomatch h
  | .record members, inner + 1, outer + 1, v, hDepth, h => by
    obtain ⟨vs, hMembers, hValue⟩ := Option.map_eq_some_iff.mp h
    exact Option.map_eq_some_iff.mpr
      ⟨vs, members?_mono members (Nat.le_of_succ_le_succ hDepth) hMembers, hValue⟩

theorem values?_mono : ∀ (ts : List Tree) {inner outer : Nat} {vs : List Value}, inner ≤ outer →
    values? inner ts = some vs → values? outer ts = some vs
  | [], _, _, _, _, h => h
  | t :: ts, _, _, _, hDepth, h => by
    obtain ⟨v, rest, hFirst, hRest, hValues⟩ := values?_cons.mp h
    exact values?_cons.mpr
      ⟨v, rest, value?_mono t hDepth hFirst, values?_mono ts hDepth hRest, hValues⟩

theorem members?_mono : ∀ (ms : List (Option String × Tree)) {inner outer : Nat} {vs : Members},
    inner ≤ outer → members? inner ms = some vs → members? outer ms = some vs
  | [], _, _, _, _, h => h
  | (_, t) :: ms, _, _, _, hDepth, h => by
    obtain ⟨key, v, rest, hName, hFirst, hRest, hMembers⟩ := members?_cons.mp h
    exact members?_cons.mpr
      ⟨key, v, rest, hName, value?_mono t hDepth hFirst, members?_mono ms hDepth hRest, hMembers⟩

end

end Tree

/-! ## Values that are their own values -/

/-- A value that is its own value at a depth. -/
def Value.Fits (depth : Nat) (v : Value) : Prop := (Tree.ofValue v).value? depth = some v

/-- Members with values that are their own values at a depth. -/
def Members.Fits (depth : Nat) (ms : Members) : Prop := ∀ m ∈ ms, m.2.Fits depth

namespace Value

variable {depth : Nat}

theorem Fits.mono {inner outer : Nat} {v : Value} (hDepth : inner ≤ outer) (h : v.Fits inner) :
    v.Fits outer := Tree.value?_mono _ hDepth h

theorem values?_ofValues {vs : List Value} (h : ∀ v ∈ vs, v.Fits depth) :
    Tree.values? depth (Tree.ofValues vs) = some vs := by
  induction vs with
  | nil => rfl
  | cons v vs ih =>
    exact Tree.values?_cons.mpr ⟨v, vs, h v List.mem_cons_self,
      ih fun w hMem => h w (List.mem_cons_of_mem _ hMem), rfl⟩

theorem fits_list {vs : List Value} (h : ∀ v ∈ vs, v.Fits depth) :
    (Value.list vs).Fits (depth + 1) :=
  Option.map_eq_some_iff.mpr ⟨vs, values?_ofValues h, rfl⟩

end Value

namespace Members

variable {depth : Nat} {ms : Members}

theorem Fits.members?_ofMembers (h : ms.Fits depth) :
    Tree.members? depth (Tree.ofMembers ms) = some ms := by
  induction ms with
  | nil => rfl
  | cons m ms ih =>
    exact Tree.members?_cons.mpr ⟨m.1, m.2, ms, rfl, h m List.mem_cons_self,
      ih fun other hMem => h other (List.mem_cons_of_mem _ hMem), rfl⟩

theorem Fits.record (h : ms.Fits depth) (hOrdered : ms.Ordered) :
    (Value.record ms).Fits (depth + 1) :=
  Option.map_eq_some_iff.mpr
    ⟨ms, h.members?_ofMembers, congrArg Value.record (sorted_of_ordered hOrdered)⟩

theorem Fits.sorted (h : ms.Fits depth) : ms.sorted.Fits depth :=
  fun m hMem => h m (mem_of_mem_sorted hMem)

end Members

namespace Tree

mutual

/-- The value of a tree is its own value. -/
theorem fits_value? : ∀ (t : Tree) {depth : Nat} {v : Value}, t.value? depth = some v →
    v.Fits depth
  | .null, _, _, h => by
    cases h
    rfl
  | .bool _, _, _, h => by
    cases h
    rfl
  | .number _, _, _, h => by
    obtain ⟨n, -, rfl⟩ := Option.map_eq_some_iff.mp h
    rfl
  | .text _, _, _, h => by
    obtain ⟨s, -, rfl⟩ := Option.map_eq_some_iff.mp h
    rfl
  | .list _, 0, _, h => nomatch h
  | .list items, depth + 1, _, h => by
    obtain ⟨vs, hItems, rfl⟩ := Option.map_eq_some_iff.mp h
    exact Value.fits_list (fits_values? items hItems)
  | .record _, 0, _, h => nomatch h
  | .record members, depth + 1, _, h => by
    obtain ⟨ms, hMembers, rfl⟩ := Option.map_eq_some_iff.mp h
    exact (fits_members? members hMembers).sorted.record (Members.ordered_sorted ms)

theorem fits_values? : ∀ (ts : List Tree) {depth : Nat} {vs : List Value},
    values? depth ts = some vs → ∀ v ∈ vs, v.Fits depth
  | [], _, _, h => by
    cases h
    nofun
  | t :: ts, _, _, h => by
    obtain ⟨v, rest, hFirst, hRest, rfl⟩ := values?_cons.mp h
    exact List.forall_mem_cons.mpr ⟨fits_value? t hFirst, fits_values? ts hRest⟩

theorem fits_members? : ∀ (ms : List (Option String × Tree)) {depth : Nat} {vs : Members},
    members? depth ms = some vs → vs.Fits depth
  | [], _, _, h => by
    cases h
    nofun
  | (_, t) :: ms, _, _, h => by
    obtain ⟨key, v, rest, -, hFirst, hRest, rfl⟩ := members?_cons.mp h
    exact List.forall_mem_cons.mpr ⟨fits_value? t hFirst, fits_members? ms hRest⟩

end

end Tree

end TripPlanner.Json
