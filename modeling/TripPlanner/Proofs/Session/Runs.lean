import TripPlanner.Planner.Session
import TripPlanner.Proofs.Planner.Events
import Mathlib.Data.List.Induction
import Mathlib.Tactic.Simps.Basic

/-!
# Runs of sessions

A session goes on by steps: the user does something, something sent is answered, or the user's
events come to their end. Which of these happens next is not up to the session, so what holds of
sessions holds of every run, that is of every list of steps that can happen one after the other.

* `Session.step?`, `Session.run?`: a session after a step and after a run.
* `Moves`, `step?_eq_some_iff`: everything that a step can be.
* `run_induction`: what every step keeps holds after every run.
* `Happens`: what has been so at some step of a run.
* `Visits`: what has been so of some session of a run.
-/

namespace TripPlanner

/-! ## Steps one after the other -/

section Folds

variable {σ α : Type} {step : σ → α → Option σ}

theorem foldlM_concat_eq_some_iff {s s' : σ} {steps : List α} {x : α} :
    (steps ++ [x]).foldlM step s = some s' ↔
      ∃ t, steps.foldlM step s = some t ∧ step t x = some s' := by
  rw [List.foldlM_append]
  refine Option.bind_eq_some_iff.trans (exists_congr fun t => and_congr_right fun _ => ?_)
  simp

/-- What holds at the start and is kept by every step holds in the end. -/
theorem foldlM_induction {s : σ} {P : List α → σ → Prop} (hStart : P [] s)
    (hStep : ∀ steps t x t', steps.foldlM step s = some t → P steps t → step t x = some t' →
      P (steps ++ [x]) t')
    {steps : List α} {s' : σ} (hRun : steps.foldlM step s = some s') : P steps s' := by
  induction steps using List.reverseRecOn generalizing s' with
  | nil =>
    cases hRun
    exact hStart
  | append_singleton steps x ih =>
    obtain ⟨t, hBefore, hLast⟩ := foldlM_concat_eq_some_iff.mp hRun
    exact hStep steps t x s' hBefore (ih hBefore) hLast

end Folds

/-! ## Sessions -/

/-- What the user does. -/
inductive Input where
  | mount
  | edit (e : Edit)
  | select (index : Nat)
  | refresh

/-- What the user does, as an event. -/
def Input.event : Input → Event
  | .mount => .mount
  | .edit e => .edit e
  | .select index => .select index
  | .refresh => .refresh

namespace Session

/-- Something that happens to a session. -/
inductive Step where
  | input (i : Input)
  /-- What was sent at a place is answered. -/
  | answer (place : Nat) (a : Answer)
  | close

/-- The session after a step, if the step can happen. -/
def step? (s : Session) : Step → Option Session
  | .input i => if s.isOpen then some (s.handle i.event).1 else none
  | .answer place a => (s.answer? place a).map (·.1)
  | .close => if s.isOpen then some s.close else none

/-- The session after a run, if each step can happen in its turn. -/
def run? (s : Session) (steps : List Step) : Option Session := steps.foldlM step? s

/-- A session in which the planner has just been shown. -/
def opened (p : Planner) : Session := (start p).1

/-! ## Steps -/

/-- A session in which what was sent at a place no longer waits. -/
@[simps]
def received (s : Session) (place : Nat) : Session :=
  { s with waiting := s.waiting.erase place }

/-- A session with another planner. -/
@[simps]
def withPlanner (s : Session) (p : Planner) : Session := { s with planner := p }

theorem carryOut_nothing (s : Session) (p : Planner) (notices : List Notice) :
    s.carryOut ⟨p, [], notices⟩ = s.withPlanner p := by
  simp [carryOut, withPlanner]

theorem carryOut_of_effects {s : Session} {r : Response} {effects : List Effect}
    (h : r.effects = effects) :
    s.carryOut r = ⟨r.planner, s.sent ++ effects,
      s.waiting ++ List.range' s.sent.length effects.length, s.isOpen⟩ := by
  rw [← h]
  rfl

/-- Everything that a step can be. -/
inductive Moves (s : Session) : Step → Session → Prop
  | input (i : Input) (hOpen : s.isOpen = true) :
      Moves s (.input i) (s.carryOut (s.planner.update i.event))
  | info (place : Nat) (a : InfoAnswer) (hWaits : place ∈ s.waiting)
      (hSent : s.sent[place]? = some .fetchInfo) :
      Moves s (.answer place (.info a))
        ((s.received place).carryOut (s.planner.update (.info a)))
  | routes (place : Nat) (r : String) (a : RoutesAnswer) (hWaits : place ∈ s.waiting)
      (hSent : s.sent[place]? = some (.fetchRoutes r)) :
      Moves s (.answer place (.routes a))
        ((s.received place).carryOut (s.planner.update (.routes r a)))
  | close (hOpen : s.isOpen = true) : Moves s .close s.close

theorem of_answer? {s : Session} {place : Nat} {a : Answer} {answered : Session × List Notice}
    (h : s.answer? place a = some answered) :
    place ∈ s.waiting ∧ ∃ effect event, s.sent[place]? = some effect ∧
      event? effect a = some event ∧ (s.received place).handle event = answered := by
  unfold answer? at h
  by_cases hWaits : place ∈ s.waiting
  · simpa [hWaits, Option.bind_eq_some_iff, received] using h
  · simp [hWaits] at h

theorem step?_eq_some_iff {s s' : Session} {x : Step} : s.step? x = some s' ↔ Moves s x s' := by
  constructor
  · intro h
    cases x with
    | input i =>
      by_cases hOpen : s.isOpen = true
      · simp only [step?, hOpen, if_true, Option.some.injEq] at h
        exact h ▸ .input i hOpen
      · simp [step?, hOpen] at h
    | answer place a =>
      obtain ⟨answered, hAnswer, rfl⟩ := Option.map_eq_some_iff.mp h
      obtain ⟨hWaits, effect, event, hSent, hEvent, rfl⟩ := of_answer? hAnswer
      cases effect with
      | fetchInfo =>
        cases a with
        | info a =>
          cases hEvent
          exact .info place a hWaits hSent
        | routes a => cases hEvent
      | fetchRoutes r =>
        cases a with
        | info a => cases hEvent
        | routes a =>
          cases hEvent
          exact .routes place r a hWaits hSent
    | close =>
      by_cases hOpen : s.isOpen = true
      · simp only [step?, hOpen, if_true, Option.some.injEq] at h
        exact h ▸ .close hOpen
      · simp [step?, hOpen] at h
  · intro h
    cases h with
    | input i hOpen => simp [step?, hOpen, handle]
    | info place a hWaits hSent => simp [step?, answer?, hWaits, hSent, event?, received, handle]
    | routes place r a hWaits hSent =>
      simp [step?, answer?, hWaits, hSent, event?, received, handle]
    | close hOpen => simp [step?, hOpen]

theorem planner_step {s s' : Session} {x : Step} (h : Moves s x s') :
    s'.planner = s.planner ∨ ∃ e, s'.planner = (s.planner.update e).planner := by
  cases h with
  | input i hOpen => exact Or.inr ⟨_, rfl⟩
  | info place a hWaits hSent => exact Or.inr ⟨_, rfl⟩
  | routes place r a hWaits hSent => exact Or.inr ⟨_, rfl⟩
  | close hOpen => exact Or.inl rfl

theorem isOpen_input {s s' : Session} {i : Input} (h : Moves s (.input i) s') :
    s.isOpen = true ∧ s'.isOpen = true := by
  cases h with
  | input _ hOpen => exact ⟨hOpen, hOpen⟩

theorem isOpen_answer {s s' : Session} {place : Nat} {a : Answer}
    (h : Moves s (.answer place a) s') : s'.isOpen = s.isOpen := by
  cases h with
  | info _ a hWaits hSent => rfl
  | routes _ r a hWaits hSent => rfl

/-! ## Runs -/

@[simp] theorem run?_nil (s : Session) : s.run? [] = some s := rfl

theorem run?_of_moves {s t : Session} {x : Step} (h : Moves s x t) (steps : List Step) :
    s.run? (x :: steps) = t.run? steps := by
  rw [run?, List.foldlM_cons, step?_eq_some_iff.mpr h]
  rfl

theorem run?_append (s : Session) (before after : List Step) :
    s.run? (before ++ after) = (s.run? before).bind fun t => t.run? after := by
  unfold run?
  rw [List.foldlM_append]
  rfl

theorem run?_concat_eq_some_iff {s s' : Session} {steps : List Step} {x : Step} :
    s.run? (steps ++ [x]) = some s' ↔ ∃ t, s.run? steps = some t ∧ Moves t x s' := by
  unfold run?
  simp only [foldlM_concat_eq_some_iff, step?_eq_some_iff]

/-- What holds at the start and is kept by every step holds after every run. -/
theorem run_induction {s : Session} {P : List Step → Session → Prop} (hStart : P [] s)
    (hStep : ∀ steps t x t', s.run? steps = some t → P steps t → Moves t x t' →
      P (steps ++ [x]) t')
    {steps : List Step} {s' : Session} (hRun : s.run? steps = some s') : P steps s' :=
  foldlM_induction hStart
    (fun steps t x t' hBefore ht hLast =>
      hStep steps t x t' hBefore ht (step?_eq_some_iff.mp hLast)) hRun

/-! ## The past -/

/-- At some step of a run something holds of the session that takes the step and of the step. -/
def Happens (s : Session) (steps : List Step) (P : Session → Step → Prop) : Prop :=
  ∃ before x after t, steps = before ++ x :: after ∧ s.run? before = some t ∧ P t x

@[simp] theorem happens_nil (s : Session) (P : Session → Step → Prop) : ¬ s.Happens [] P := by
  rintro ⟨before, x, after, t, hSteps, -⟩
  cases before <;> cases hSteps

/-- What has happened after one more step has happened before, or it happens at that step. -/
theorem happens_concat_iff {s t : Session} {steps : List Step} {x : Step}
    {P : Session → Step → Prop} (hRun : s.run? steps = some t) :
    s.Happens (steps ++ [x]) P ↔ s.Happens steps P ∨ P t x := by
  constructor
  · rintro ⟨before, y, after, u, hSteps, hBefore, hP⟩
    cases after using List.reverseRecOn with
    | nil =>
      obtain ⟨rfl, hLast⟩ := List.append_inj' hSteps rfl
      cases hLast
      rw [hRun] at hBefore
      cases hBefore
      exact Or.inr hP
    | append_singleton after z =>
      rw [← List.cons_append, ← List.append_assoc] at hSteps
      obtain ⟨rfl, -⟩ := List.append_inj' hSteps rfl
      exact Or.inl ⟨before, y, after, u, rfl, hBefore, hP⟩
  · rintro (⟨before, y, after, u, rfl, hBefore, hP⟩ | hP)
    · exact ⟨before, y, after ++ [x], u, by simp, hBefore, hP⟩
    · exact ⟨steps, x, [], t, rfl, hRun, hP⟩

/-- At the start of a run or after some of its steps, something holds of the session. -/
def Visits (s : Session) (steps : List Step) (P : Session → Prop) : Prop :=
  ∃ before after t, steps = before ++ after ∧ s.run? before = some t ∧ P t

theorem visits_nil_iff {s : Session} {P : Session → Prop} : s.Visits [] P ↔ P s := by
  constructor
  · rintro ⟨before, after, t, hSteps, hBefore, hP⟩
    obtain ⟨rfl, -⟩ := List.append_eq_nil_iff.mp hSteps.symm
    cases hBefore
    exact hP
  · intro hP
    exact ⟨[], [], s, rfl, rfl, hP⟩

/-- What a run with one more step visits, it has visited before, or it gets there by that step. -/
theorem visits_concat_iff {s s' : Session} {steps : List Step} {x : Step} {P : Session → Prop}
    (hRun : s.run? (steps ++ [x]) = some s') :
    s.Visits (steps ++ [x]) P ↔ s.Visits steps P ∨ P s' := by
  constructor
  · rintro ⟨before, after, t, hSteps, hBefore, hP⟩
    cases after using List.reverseRecOn with
    | nil =>
      rw [List.append_nil] at hSteps
      rw [← hSteps, hRun] at hBefore
      cases hBefore
      exact Or.inr hP
    | append_singleton after y =>
      rw [← List.append_assoc] at hSteps
      obtain ⟨rfl, -⟩ := List.append_inj' hSteps rfl
      exact Or.inl ⟨before, after, t, rfl, hBefore, hP⟩
  · rintro (⟨before, after, t, rfl, hBefore, hP⟩ | hP)
    · exact ⟨before, after ++ [x], t, by simp, hBefore, hP⟩
    · exact ⟨steps ++ [x], [], s', by simp, hRun, hP⟩

end Session

end TripPlanner
