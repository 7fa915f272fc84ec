import TripPlanner.Proofs.Session.Runs

/-!
# What waits for an answer

What a session has sent stays on record (`sent_run`), and it waits exactly until the step that
answers it (`waiting_step_iff`, `waiting_run_iff`). Only what has been sent waits, and each of it
once (`Tidy`), so an answer ends the wait of one request and leaves its copies waiting.

* `Awaits`: something that was sent waits, at whatever place.
* `awaits_step`, `awaits_of_sent`: how something comes to wait, and what ends that.
-/

namespace TripPlanner.Session

/-- Only what has been sent waits for an answer, and it waits once. -/
structure Tidy (s : Session) : Prop where
  nodup : s.waiting.Nodup
  lt : ∀ place ∈ s.waiting, place < s.sent.length

theorem mem_waiting_carryOut {s : Session} {r : Response} {place : Nat} :
    place ∈ (s.carryOut r).waiting ↔
      place ∈ s.waiting ∨
        s.sent.length ≤ place ∧ place < s.sent.length + r.effects.length := by
  simp [carryOut, List.mem_range'_1]

theorem tidy_carryOut {s : Session} (h : s.Tidy) (r : Response) : (s.carryOut r).Tidy := by
  refine ⟨List.nodup_append.mpr ⟨h.nodup, List.nodup_range', ?_⟩, ?_⟩
  · intro place hOld new hNew hSame
    have hOldLt := h.lt place hOld
    have hNewLe := (List.mem_range'_1.mp hNew).1
    omega
  · intro place hPlace
    have hLength : (s.carryOut r).sent.length = s.sent.length + r.effects.length :=
      List.length_append
    rcases mem_waiting_carryOut.mp hPlace with hOld | ⟨-, hNew⟩
    · have := h.lt place hOld
      omega
    · omega

theorem tidy_received {s : Session} (h : s.Tidy) (place : Nat) : (s.received place).Tidy :=
  ⟨h.nodup.erase place, fun other hOther => h.lt other (List.mem_of_mem_erase hOther)⟩

theorem tidy_opened (p : Planner) : (opened p).Tidy :=
  tidy_carryOut ⟨List.nodup_nil, fun _ h => absurd h List.not_mem_nil⟩ _

theorem tidy_step {s s' : Session} {x : Step} (h : s.Tidy) (hMoves : Moves s x s') : s'.Tidy := by
  cases hMoves with
  | input i hOpen => exact tidy_carryOut h _
  | info place a hWaits hSent => exact tidy_carryOut (tidy_received h place) _
  | routes place r a hWaits hSent => exact tidy_carryOut (tidy_received h place) _
  | close hOpen => exact ⟨h.nodup, h.lt⟩

theorem tidy_run {s s' : Session} {steps : List Step} (h : s.Tidy)
    (hRun : s.run? steps = some s') : s'.Tidy :=
  run_induction (P := fun _ t => t.Tidy) h (fun _ _ _ _ _ ht hMoves => tidy_step ht hMoves) hRun

/-- Whatever waits can be answered. -/
theorem exists_answer {s : Session} {place : Nat} (hTidy : s.Tidy) (hWaits : place ∈ s.waiting) :
    ∃ a s', Moves s (.answer place a) s' := by
  have hLt := hTidy.lt place hWaits
  have hPlace := List.getElem?_eq_getElem hLt
  cases hSent : s.sent[place] with
  | fetchInfo => exact ⟨_, _, .info place (.error (.setup "")) hWaits (hSent ▸ hPlace)⟩
  | fetchRoutes r => exact ⟨_, _, .routes place r (.ok []) hWaits (hSent ▸ hPlace)⟩

theorem sent_step {s s' : Session} {x : Step} (h : Moves s x s') : s.sent <+: s'.sent := by
  cases h with
  | input i hOpen => exact List.prefix_append _ _
  | info place a hWaits hSent => exact List.prefix_append _ _
  | routes place r a hWaits hSent => exact List.prefix_append _ _
  | close hOpen => exact List.prefix_rfl

theorem mem_routePlaces {s : Session} {place : Nat} :
    place ∈ s.routePlaces ↔ ∃ r, s.sent[place]? = some (.fetchRoutes r) := by
  simp only [routePlaces, List.mem_filter, List.mem_range, bne_iff_ne, ne_eq]
  constructor
  · rintro ⟨hLt, hNot⟩
    cases hSent : s.sent[place] with
    | fetchInfo => exact absurd (by rw [List.getElem?_eq_getElem hLt, hSent]) hNot
    | fetchRoutes r => exact ⟨r, by rw [List.getElem?_eq_getElem hLt, hSent]⟩
  · rintro ⟨r, hSent⟩
    exact ⟨(List.getElem?_eq_some_iff.mp hSent).1, by simp [hSent]⟩

theorem sent_run {s s' : Session} {steps : List Step} (hRun : s.run? steps = some s') :
    s.sent <+: s'.sent :=
  run_induction (P := fun _ t => s.sent <+: t.sent) List.prefix_rfl
    (fun _ _ _ _ _ ht hMoves => ht.trans (sent_step hMoves)) hRun

theorem sent_stays {s s' : Session} {place : Nat} {effect : Effect}
    (hSent : s.sent <+: s'.sent) (h : s.sent[place]? = some effect) :
    s'.sent[place]? = some effect := by
  obtain ⟨later, hLater⟩ := hSent
  rw [← hLater, List.getElem?_append_left (List.getElem?_eq_some_iff.mp h).1]
  exact h

/-- What has been sent waits until the step that answers it. -/
theorem waiting_step_iff {s s' : Session} {x : Step} {place : Nat} (h : s.Tidy)
    (hPlace : place < s.sent.length) (hMoves : Moves s x s') :
    place ∈ s'.waiting ↔ place ∈ s.waiting ∧ ∀ a, x ≠ .answer place a := by
  have hErase : ∀ other (e : Event),
      place ∈ ((s.received other).carryOut (s.planner.update e)).waiting ↔
        place ∈ s.waiting ∧ place ≠ other := by
    intro other e
    have hNew : ¬ s.sent.length ≤ place := by omega
    rw [mem_waiting_carryOut]
    simp [received, hNew, h.nodup.mem_erase_iff, and_comm]
  cases hMoves with
  | input i hOpen =>
    have hNew : ¬ s.sent.length ≤ place := by omega
    simp [mem_waiting_carryOut, hNew]
  | info other a hWaits hSent =>
    rw [hErase]
    simp [eq_comm]
  | routes other r a hWaits hSent =>
    rw [hErase]
    simp [eq_comm]
  | close hOpen => simp [close]

theorem waiting_run_iff {s s' : Session} {steps : List Step} {place : Nat} (h : s.Tidy)
    (hPlace : place < s.sent.length) (hRun : s.run? steps = some s') :
    place ∈ s'.waiting ↔ place ∈ s.waiting ∧ ∀ a, .answer place a ∉ steps := by
  refine run_induction
    (P := fun steps t => place ∈ t.waiting ↔ place ∈ s.waiting ∧ ∀ a, .answer place a ∉ steps)
    (by simp) ?_ hRun
  intro steps t x t' hBefore ht hMoves
  have hLt : place < t.sent.length := Nat.lt_of_lt_of_le hPlace (sent_run hBefore).length_le
  rw [waiting_step_iff (tidy_run h hBefore) hLt hMoves, ht]
  simp only [List.mem_append, List.mem_singleton, not_or, forall_and, and_assoc, ne_comm, ne_eq]

/-! ## Whatever the place -/

/-- Something that has been sent waits for an answer. -/
def Awaits (s : Session) (effect : Effect) : Prop :=
  ∃ place ∈ s.waiting, s.sent[place]? = some effect

theorem isOver_iff {s : Session} : s.isOver ↔ s.isOpen = false ∧ s.waiting = [] := by
  simp [isOver]

theorem not_awaits_of_isOver {s : Session} (h : s.isOver) (effect : Effect) :
    ¬ s.Awaits effect := by
  rintro ⟨place, hPlace, -⟩
  rw [(isOver_iff.mp h).2] at hPlace
  cases hPlace

/-- Something goes on waiting unless the step answers it. -/
theorem awaits_step {s s' : Session} {x : Step} {effect : Effect} (hTidy : s.Tidy)
    (h : s.Awaits effect) (hMoves : Moves s x s') :
    s'.Awaits effect ∨ ∃ place a, x = .answer place a ∧ s.sent[place]? = some effect := by
  obtain ⟨place, hPlace, hSent⟩ := h
  by_cases hAnswered : ∃ a, x = .answer place a
  · obtain ⟨a, hx⟩ := hAnswered
    exact Or.inr ⟨place, a, hx, hSent⟩
  · refine Or.inl ⟨place, ?_, ?_⟩
    · refine (waiting_step_iff hTidy (hTidy.lt place hPlace) hMoves).mpr ⟨hPlace, ?_⟩
      exact fun a hx => hAnswered ⟨a, hx⟩
    · exact sent_stays (sent_step hMoves) hSent

theorem awaits_of_sent {s s' : Session} {x : Step} {effect : Effect} (hMoves : Moves s x s')
    (h : s'.sent = s.sent ++ [effect]) : s'.Awaits effect := by
  have hNew : s.sent.length ∈ s'.waiting := by
    have hLength : s'.sent.length = s.sent.length + 1 := by simp [h]
    cases hMoves with
    | input i hOpen =>
      rw [mem_waiting_carryOut]
      simp only [carryOut, List.length_append] at hLength
      omega
    | info place a hWaits hSent =>
      rw [mem_waiting_carryOut]
      simp only [carryOut, received, List.length_append] at hLength ⊢
      omega
    | routes place r a hWaits hSent =>
      rw [mem_waiting_carryOut]
      simp only [carryOut, received, List.length_append] at hLength ⊢
      omega
    | close hOpen => simp [close] at hLength
  exact ⟨s.sent.length, hNew, by simp [h]⟩

end TripPlanner.Session
