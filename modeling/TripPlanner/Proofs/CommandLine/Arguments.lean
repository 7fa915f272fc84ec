import TripPlanner.CommandLine.Command
import TripPlanner.Proofs.Checks
import TripPlanner.Proofs.Query.Edits

/-!
# What arguments can say

A record that arguments are gathered in changes only by the parameters that are given. So a property
that each parameter keeps (`Meaning.Keeps`) holds of the record after every argument
(`Gathered.keeps_take`), and in the end (`Gathered.keeps_takeAll`), whichever arguments there are.

Arguments can set the endpoints of a query but have no way to clear them
(`Invocation.keepsEnds_ofArguments`).
-/

namespace TripPlanner

/-! ## Checks that pass -/

namespace Checks

variable {ε α β : Type} {P : α → Prop} {Q : β → Prop}

/-- Where a check passes, its value has a property. -/
def Ensures (x : Except ε α) (P : α → Prop) : Prop := ∀ a, x = .ok a → P a

theorem ensures_ok {a : α} (h : P a) : Ensures (.ok a : Except ε α) P :=
  fun _ hOk => Except.ok.inj hOk ▸ h

theorem ensures_error (e : ε) : Ensures (.error e : Except ε α) P := nofun

theorem ensures_true (x : Except ε α) : Ensures x fun _ => True := fun _ _ => trivial

theorem ensures_bind {x : Except ε α} {f : α → Except ε β} (h : Ensures x P)
    (hNext : ∀ a, P a → Ensures (f a) Q) : Ensures (x >>= f) Q := by
  intro b hOk
  obtain ⟨a, hFirst, hLast⟩ := bind_eq_ok.mp hOk
  exact hNext a (h a hFirst) b hLast

theorem ensures_foldlM {step : β → α → Except ε β} (hStep : ∀ b a, Q b → Ensures (step b a) Q)
    (as : List α) {b : β} (h : Q b) : Ensures (as.foldlM step b) Q := by
  induction as generalizing b with
  | nil => exact ensures_ok h
  | cons a as ih =>
    rw [List.foldlM_cons]
    exact ensures_bind (hStep b a h) fun _ => ih

end Checks

open Checks

namespace CommandLine

variable {α : Type} {P : α → Prop}

/-- Values that are read keep a property of the record. -/
def Preserving (P : α → Prop) (read : String → Option (α → α)) : Prop :=
  ∀ s set, read s = some set → ∀ a, P a → P (set a)

/-- What a parameter means keeps a property of the record. -/
def Meaning.Keeps (P : α → Prop) : Meaning α → Prop
  | .flag set => ∀ a, P a → P (set a)
  | .value read => Preserving P read
  | .help | .version => True

theorem keeps_everywhere : ∀ entry ∈ (everywhere : Parameters α), entry.2.Keeps P := by
  simp [everywhere, Meaning.Keeps]

theorem keeps_of_lookup {ps : Parameters α} (h : ∀ entry ∈ ps, entry.2.Keeps P) {name : String}
    {meaning : Meaning α} (hLookup : ps.lookup name = some meaning) : meaning.Keeps P := by
  obtain ⟨before, after, rfl, -⟩ := List.lookup_eq_some_iff.mp hLookup
  exact h _ (List.mem_append_right _ List.mem_cons_self)

namespace Gathered

/-- The record has a property, and the value that has not been looked at keeps it. -/
structure Keeps (P : α → Prop) (g : Gathered α) : Prop where
  record : P g.record
  pending : ∀ p ∈ g.pending, Preserving P p.read

theorem keeps_note {g : Gathered α} (h : g.Keeps P) (name : String) :
    Ensures (g.note name) (Keeps P) := by
  unfold note
  split
  · exact ensures_error _
  · exact ensures_ok ⟨h.record, h.pending⟩

theorem keeps_assign {g : Gathered α} (h : g.Keeps P) (name value : String)
    {read : String → Option (α → α)} (hRead : Preserving P read) :
    Ensures (g.assign name read value) (Keeps P) := by
  refine ensures_bind (keeps_note h name) fun g' h' => ?_
  cases hValue : read value with
  | none => exact ensures_error _
  | some set => exact ensures_ok ⟨hRead value set hValue _ h'.record, h'.pending⟩

theorem keeps_settled {g : Gathered α} (h : g.Keeps P) : Ensures g.settled (Keeps P) := by
  unfold settled
  split
  case h_1 => exact ensures_ok h
  case h_2 p hPending =>
    split
    case h_1 => exact ensures_error _
    case h_2 value hValue =>
      have hTaken : Keeps P { g with pending := none } := ⟨h.record, fun _ hMem => nomatch hMem⟩
      exact keeps_assign hTaken p.name value (h.pending p hPending)

theorem keeps_mean {g : Gathered α} (h : g.Keeps P) (name : String) (value : Option String)
    {meaning : Meaning α} (hMeaning : meaning.Keeps P) :
    Ensures (g.mean name value meaning) (Keeps P) := by
  cases meaning with
  | value read =>
    refine ensures_bind (keeps_settled h) fun g' h' => ?_
    cases value with
    | some value => exact keeps_assign h' name value hMeaning
    | none =>
      refine ensures_ok ⟨h'.record, fun p hMem => ?_⟩
      exact Option.some.inj hMem ▸ hMeaning
  | flag set =>
    cases value with
    | some value => exact ensures_error _
    | none =>
      refine ensures_bind (keeps_settled h) fun g' h' => ?_
      refine ensures_bind (keeps_note h' name) fun g'' h'' => ?_
      exact ensures_ok ⟨hMeaning _ h''.record, h''.pending⟩
  | help =>
    cases value with
    | some value => exact ensures_error _
    | none => exact ensures_bind (keeps_settled h) fun _ _ => ensures_error _
  | version =>
    cases value with
    | some value => exact ensures_error _
    | none => exact ensures_bind (keeps_settled h) fun _ _ => ensures_error _

theorem keeps_word {g : Gathered α} (h : g.Keeps P) (limit : Nat) (s : String) :
    Ensures (g.word limit s) (Keeps P) := by
  unfold word
  split
  · refine ensures_bind (keeps_settled h) fun g' h' => ?_
    exact ensures_ok ⟨h'.record, h'.pending⟩
  · exact ensures_error _

theorem keeps_wordOrValue {g : Gathered α} (h : g.Keeps P) (limit : Nat) (s : String) :
    Ensures (g.wordOrValue limit s) (Keeps P) := by
  unfold wordOrValue
  split
  case h_1 p hPending =>
    split
    · refine ensures_ok ⟨h.record, fun q hMem => ?_⟩
      have hRead : q.read = p.read := by rw [← Option.some.inj hMem]
      exact hRead ▸ h.pending p hPending
    · exact keeps_word h limit s
  case h_2 => exact keeps_word h limit s

theorem letter?_eq_some {c : Char} {meaning : Meaning α} (h : letter? c = some meaning) :
    meaning = .help ∨ meaning = .version := by
  unfold letter? at h
  split at h
  · exact Or.inl (Option.some.inj h).symm
  · split at h
    · exact Or.inr (Option.some.inj h).symm
    · cases h

theorem keeps_take {ps : Parameters α} (hParameters : ∀ entry ∈ ps, entry.2.Keeps P)
    (limit : Nat) {g : Gathered α} (h : g.Keeps P) (s : String) :
    Ensures (take ps limit g s) (Keeps P) := by
  unfold take
  split
  · exact keeps_word h limit s
  · split
    case h_1 => exact ensures_ok ⟨h.record, h.pending⟩
    case h_2 name value hLook =>
      split
      case h_1 meaning hMeaning =>
        refine keeps_mean h name value (keeps_of_lookup ?_ hMeaning)
        intro entry hMem
        rcases List.mem_append.mp hMem with hMem | hMem
        · exact hParameters entry hMem
        · exact keeps_everywhere entry hMem
      case h_2 => exact ensures_error _
    case h_3 c hLook =>
      split
      case h_1 meaning hMeaning =>
        refine keeps_mean h _ none ?_
        rcases letter?_eq_some hMeaning with rfl | rfl <;> trivial
      case h_2 => exact ensures_error _
    case h_4 => exact keeps_wordOrValue h limit s

theorem keeps_takeAll {ps : Parameters α} (hParameters : ∀ entry ∈ ps, entry.2.Keeps P)
    (limit : Nat) {g : Gathered α} (h : g.Keeps P) (arguments : List String) :
    Ensures (takeAll ps limit g arguments) (Keeps P) :=
  ensures_bind (ensures_foldlM (fun _ s h => keeps_take hParameters limit h s) arguments h)
    fun _ h' => keeps_settled h'

end Gathered

/-! ## Queries -/

/-- The edit that arguments say so far clears no endpoint. -/
def Wish.KeepsEnds (w : Wish) : Prop := w.edit.KeepsEnds

theorem keeps_editing {change : Edit → Edit} (h : ∀ e, e.KeepsEnds → (change e).KeepsEnds) :
    (editing change).Keeps Wish.KeepsEnds :=
  fun w hw => h w.edit hw

theorem keeps_editingBy {β : Type} {read : String → Option β} {change : β → Edit → Edit}
    (h : ∀ b e, e.KeepsEnds → (change b e).KeepsEnds) :
    (editingBy read change).Keeps Wish.KeepsEnds := by
  intro s set hRead w hw
  obtain ⟨b, -, rfl⟩ := Option.map_eq_some_iff.mp hRead
  exact h b w.edit hw

/-- A value that does not edit the query keeps its endpoints. -/
theorem keeps_value {read : String → Option (Wish → Wish)}
    (h : ∀ s set, read s = some set → ∀ w, (set w).edit = w.edit) :
    (Meaning.value read).Keeps Wish.KeepsEnds := by
  intro s set hRead w hw
  rw [Wish.KeepsEnds, h s set hRead w]
  exact hw

theorem keeps_queryParameters : ∀ entry ∈ queryParameters, entry.2.Keeps Wish.KeepsEnds := by
  simp only [queryParameters, List.forall_mem_cons, List.not_mem_nil, false_implies, implies_true,
    and_true]
  exact ⟨keeps_editingBy fun _ _ h => ⟨nofun, h.2⟩, keeps_editingBy fun _ _ h => ⟨h.1, nofun⟩,
    keeps_editingBy fun _ _ h => h, keeps_editing fun _ h => h, keeps_editingBy fun _ _ h => h,
    keeps_editingBy fun _ _ h => h, keeps_editingBy fun _ _ h => h,
    keeps_editingBy fun _ _ h => h, keeps_editing fun _ h => h, keeps_editingBy fun _ _ h => h,
    keeps_editingBy fun _ _ h => h, keeps_editing fun _ h => h⟩

theorem keeps_parameters (name : CommandName) :
    ∀ entry ∈ name.parameters, entry.2.Keeps Wish.KeepsEnds := by
  have hFile : ∀ entry ∈ fileParameter, entry.2.Keeps Wish.KeepsEnds := by
    refine List.forall_mem_singleton.mpr (keeps_value fun s set hRead w => ?_)
    cases hRead
    rfl
  have hLink : ∀ entry ∈ linkParameter, entry.2.Keeps Wish.KeepsEnds := by
    refine List.forall_mem_singleton.mpr (keeps_value fun s set hRead w => ?_)
    cases hRead
    rfl
  have hSelect : ∀ entry ∈ selectParameter, entry.2.Keeps Wish.KeepsEnds := by
    refine List.forall_mem_singleton.mpr (keeps_value fun s set hRead w => ?_)
    obtain ⟨i, -, rfl⟩ := Option.map_eq_some_iff.mp hRead
    rfl
  cases name with
  | plan =>
    simp only [CommandName.parameters, List.forall_mem_append]
    exact ⟨⟨⟨hFile, keeps_queryParameters⟩, hLink⟩, hSelect⟩
  | link =>
    simp only [CommandName.parameters, List.forall_mem_append]
    exact ⟨⟨hFile, keeps_queryParameters⟩, hLink⟩
  | decode => exact hFile
  | help => exact fun _ hMem => nomatch hMem

/-- A command clears no endpoint of its query. -/
def Command.KeepsEnds : Command → Prop
  | .plan e _ _ | .link e _ => e.KeepsEnds
  | .decode _ => True

namespace Invocation

theorem keepsEnds_ofCommand (name : CommandName) (arguments : List String) :
    Ensures (ofCommand name arguments) fun i => i.command.KeepsEnds := by
  have hStart : (Gathered.start ({} : Wish)).Keeps Wish.KeepsEnds := ⟨⟨nofun, nofun⟩, nofun⟩
  unfold ofCommand
  split
  · exact ensures_error _
  · refine ensures_bind (Gathered.keeps_takeAll (keeps_parameters name) _ hStart arguments) ?_
    intro g hg
    cases name with
    | plan => exact ensures_ok hg.record
    | link => exact ensures_ok hg.record
    | decode =>
      rcases g.words with - | ⟨link, - | ⟨surplus, rest⟩⟩
      · exact ensures_error _
      · exact ensures_ok trivial
      · exact ensures_error _
    | help =>
      rcases g.words with - | ⟨link, - | ⟨surplus, rest⟩⟩
      · exact ensures_error _
      · exact ensures_ok trivial
      · exact ensures_error _

theorem keepsEnds_ofRest (arguments : List String) (g : Gathered Wish) :
    Ensures (ofRest g arguments) fun i => i.command.KeepsEnds := by
  induction arguments generalizing g with
  | nil => exact ensures_bind (ensures_true _) fun _ _ => ensures_error _
  | cons s rest ih =>
    unfold ofRest
    split
    · exact ensures_error _
    · split
      · exact ensures_bind (ensures_true _) fun g' _ => ih g'
      · cases CommandName.ofText? s with
        | none => exact ensures_error _
        | some name =>
          refine ensures_bind (keepsEnds_ofCommand name rest) fun inner hInner => ?_
          exact ensures_bind (ensures_true _) fun _ _ => ensures_ok hInner

/-- The arguments of a command never clear an endpoint of its query. -/
theorem keepsEnds_ofArguments {arguments : List String} {i : Invocation}
    (h : ofArguments arguments = .ok i) : i.command.KeepsEnds :=
  keepsEnds_ofRest arguments _ i h

end Invocation

end CommandLine

end TripPlanner
