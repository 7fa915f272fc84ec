import TripPlanner.Proofs.Session.Accounting

/-!
# The loop that drives a session

What the user does waits in a queue until the session takes it from there, and answers arrive in
between, in any order. Once the user has hung up and the queue is empty, the session is closed, and
once it is over the loop stops.

* `Loop.step?`, `Loop.run?`: the loop after a step and after a run, for any order of steps.
* `Records`: what the session has done is what the user has done, as far as it has been taken from
  the queue, mixed with the answers.
* `budget_step`: after the user has hung up every step uses up something.
-/

namespace TripPlanner

/-- A session with the queue of what the user has done meanwhile. -/
structure Loop where
  session : Session
  /-- What the session has done, in order. -/
  record : List Session.Step
  /-- What the user has done and the session has not, in order. -/
  pending : List Input
  /-- Whether the user does nothing more. -/
  hungUp : Bool

namespace Loop

/-- Something that happens to a loop: the user does something or nothing more, the session goes on,
or an answer arrives. -/
inductive Step where
  | send (i : Input)
  | hangUp
  /-- The session takes what is next in the queue, or is closed if nothing more will come. -/
  | take
  | answer (place : Nat) (a : Answer)

/-- The loop after a step of its session, with what is left in the queue. -/
def advance? (l : Loop) (y : Session.Step) (pending : List Input) : Option Loop :=
  (l.session.step? y).map fun s => ⟨s, l.record ++ [y], pending, l.hungUp⟩

/-- The loop after a step, if the step can happen. -/
def step? (l : Loop) : Step → Option Loop
  | .send i => if l.hungUp then none else some { l with pending := l.pending ++ [i] }
  | .hangUp => if l.hungUp then none else some { l with hungUp := true }
  | .take =>
    match l.pending with
    | i :: rest => l.advance? (.input i) rest
    | [] => if l.hungUp then l.advance? .close [] else none
  | .answer place a => l.advance? (.answer place a) l.pending

/-- The loop after some steps, if all of them can happen. -/
def run? (l : Loop) (steps : List Step) : Option Loop := steps.foldlM step? l

/-- The loop of a session that has just been opened. -/
def start (p : Planner) : Loop := ⟨Session.opened p, [], [], false⟩

/-- What the user does in a run of the loop, in order. -/
def sends (steps : List Step) : List Input :=
  steps.filterMap fun
    | .send i => some i
    | _ => none

/-- The answers that arrive in a run of the loop, with their places. -/
def arrivals (steps : List Step) : List (Nat × Answer) :=
  steps.filterMap fun
    | .answer place a => some (place, a)
    | _ => none

/-! ## Steps -/

/-- Everything that a step can be. -/
inductive Moves (l : Loop) : Step → Loop → Prop
  | send (i : Input) (hOpen : l.hungUp = false) :
      Moves l (.send i) { l with pending := l.pending ++ [i] }
  | hangUp (hOpen : l.hungUp = false) : Moves l .hangUp { l with hungUp := true }
  | take (i : Input) (rest : List Input) (s : Session) (hPending : l.pending = i :: rest)
      (hMoves : l.session.Moves (.input i) s) :
      Moves l .take ⟨s, l.record ++ [.input i], rest, l.hungUp⟩
  | close (s : Session) (hPending : l.pending = []) (hHungUp : l.hungUp = true)
      (hMoves : l.session.Moves .close s) :
      Moves l .take ⟨s, l.record ++ [.close], [], l.hungUp⟩
  | answer (place : Nat) (a : Answer) (s : Session)
      (hMoves : l.session.Moves (.answer place a) s) :
      Moves l (.answer place a) ⟨s, l.record ++ [.answer place a], l.pending, l.hungUp⟩

theorem advance?_eq_some_iff {l l' : Loop} {y : Session.Step} {pending : List Input} :
    l.advance? y pending = some l' ↔
      ∃ s, l.session.Moves y s ∧ ⟨s, l.record ++ [y], pending, l.hungUp⟩ = l' := by
  simp [advance?, Session.step?_eq_some_iff]

theorem step?_eq_some_iff {l l' : Loop} {x : Step} : l.step? x = some l' ↔ Moves l x l' := by
  constructor
  · intro h
    cases x with
    | send i =>
      cases hHungUp : l.hungUp with
      | true => simp [step?, hHungUp] at h
      | false =>
        rw [step?, if_neg (by simp [hHungUp])] at h
        exact Option.some.inj h ▸ .send i hHungUp
    | hangUp =>
      cases hHungUp : l.hungUp with
      | true => simp [step?, hHungUp] at h
      | false =>
        simp only [step?, hHungUp, Bool.false_eq_true, if_false, Option.some.injEq] at h
        exact h ▸ .hangUp hHungUp
    | take =>
      cases hPending : l.pending with
      | cons i rest =>
        simp only [step?, hPending] at h
        obtain ⟨s, hMoves, rfl⟩ := advance?_eq_some_iff.mp h
        exact .take i rest s hPending hMoves
      | nil =>
        cases hHungUp : l.hungUp with
        | false => simp [step?, hPending, hHungUp] at h
        | true =>
          simp only [step?, hPending, hHungUp, if_true] at h
          obtain ⟨s, hMoves, rfl⟩ := advance?_eq_some_iff.mp h
          exact .close s hPending hHungUp hMoves
    | answer place a =>
      obtain ⟨s, hMoves, rfl⟩ := advance?_eq_some_iff.mp h
      exact .answer place a s hMoves
  · intro h
    cases h with
    | send i hOpen => simp [step?, hOpen]
    | hangUp hOpen => simp [step?, hOpen]
    | take i rest s hPending hMoves =>
      simp only [step?, hPending]
      exact advance?_eq_some_iff.mpr ⟨s, hMoves, rfl⟩
    | close s hPending hHungUp hMoves =>
      simp only [step?, hPending, hHungUp, if_true]
      exact advance?_eq_some_iff.mpr ⟨s, hMoves, by rw [hHungUp]⟩
    | answer place a s hMoves => exact advance?_eq_some_iff.mpr ⟨s, hMoves, rfl⟩

theorem run_induction {l : Loop} {P : List Step → Loop → Prop} (hStart : P [] l)
    (hStep : ∀ steps m x m', l.run? steps = some m → P steps m → Moves m x m' →
      P (steps ++ [x]) m')
    {steps : List Step} {l' : Loop} (hRun : l.run? steps = some l') : P steps l' :=
  foldlM_induction hStart
    (fun steps m x m' hBefore hm hLast =>
      hStep steps m x m' hBefore hm (step?_eq_some_iff.mp hLast)) hRun

/-! ## What the session has done -/

/-- The session has done what the user has done, as far as it is not pending, and the answers, each
in order. It is closed only after everything. -/
structure Records (p : Planner) (steps : List Step) (l : Loop) : Prop where
  run : (Session.opened p).run? l.record = some l.session
  inputs : Session.inputs l.record ++ l.pending = sends steps
  answers : Session.answers l.record = arrivals steps
  closed : l.session.isOpen = false → l.hungUp = true ∧ l.pending = []

theorem sends_concat (steps : List Step) (x : Step) :
    sends (steps ++ [x]) = sends steps ++ sends [x] := List.filterMap_append

theorem arrivals_concat (steps : List Step) (x : Step) :
    arrivals (steps ++ [x]) = arrivals steps ++ arrivals [x] := List.filterMap_append

theorem records_start (p : Planner) : Records p [] (start p) := ⟨rfl, rfl, rfl, nofun⟩

theorem records_step {p : Planner} {steps : List Step} {l l' : Loop} {x : Step}
    (h : Records p steps l) (hMoves : Moves l x l') : Records p (steps ++ [x]) l' := by
  have hDone : ∀ {y s}, l.session.Moves y s →
      (Session.opened p).run? (l.record ++ [y]) = some s := fun hNext =>
    Session.run?_concat_eq_some_iff.mpr ⟨l.session, h.run, hNext⟩
  have hOpen : ¬ (l.hungUp = true ∧ l.pending = []) → l.session.isOpen = true := by
    intro hNot
    by_contra hShut
    exact hNot (h.closed (by simpa using hShut))
  cases hMoves with
  | send i hWaits =>
    refine ⟨h.run, ?_, ?_, ?_⟩
    · rw [sends_concat, ← h.inputs, List.append_assoc]
      rfl
    · rw [arrivals_concat, ← h.answers]
      exact (List.append_nil _).symm
    · intro hShut
      simp [hOpen (by simp [hWaits])] at hShut
  | hangUp hWaits =>
    refine ⟨h.run, ?_, ?_, ?_⟩
    · rw [sends_concat, ← h.inputs]
      exact (List.append_nil _).symm
    · rw [arrivals_concat, ← h.answers]
      exact (List.append_nil _).symm
    · intro hShut
      simp [hOpen (by simp [hWaits])] at hShut
  | take i rest s hPending hNext =>
    refine ⟨hDone hNext, ?_, ?_, ?_⟩
    · rw [sends_concat, ← h.inputs, hPending, Session.inputs_append, List.append_assoc]
      exact (List.append_nil _).symm
    · rw [arrivals_concat, ← h.answers, Session.answers_concat]
      rfl
    · intro hShut
      simp [(Session.isOpen_input hNext).2] at hShut
  | close s hPending hHungUp hNext =>
    refine ⟨hDone hNext, ?_, ?_, fun _ => ⟨hHungUp, rfl⟩⟩
    · rw [sends_concat, ← h.inputs, hPending, Session.inputs_append, List.append_assoc]
      exact (List.append_nil _).symm
    · rw [arrivals_concat, ← h.answers, Session.answers_concat]
      rfl
  | answer place a s hNext =>
    refine ⟨hDone hNext, ?_, ?_, ?_⟩
    · rw [sends_concat, ← h.inputs, Session.inputs_append, List.append_assoc]
      exact (List.append_nil _).symm
    · rw [arrivals_concat, ← h.answers, Session.answers_concat]
      rfl
    · intro hShut
      exact h.closed ((Session.isOpen_answer hNext).symm.trans hShut)

theorem records_run {p : Planner} {steps : List Step} {l : Loop}
    (hRun : (start p).run? steps = some l) : Records p steps l :=
  run_induction (P := Records p) (records_start p)
    (fun _ _ _ _ _ h hMoves => records_step h hMoves) hRun

/-! ## How the loop ends -/

theorem nothingLeft_of_isOver {p : Planner} {steps : List Step} {l : Loop} (h : Records p steps l)
    (hOver : l.session.isOver) :
    l.hungUp = true ∧ l.pending = [] ∧ l.session.waiting = [] := by
  obtain ⟨hShut, hEmpty⟩ := Session.isOver_iff.mp hOver
  obtain ⟨hHungUp, hPending⟩ := h.closed hShut
  exact ⟨hHungUp, hPending, hEmpty⟩

theorem stops_iff {p : Planner} {steps : List Step} {l : Loop} (h : Records p steps l) :
    (∀ x, l.step? x = none) ↔ l.session.isOver := by
  constructor
  · intro hStuck
    have hNone : ∀ x l', ¬ Moves l x l' := by
      intro x l' hMoves
      rw [← step?_eq_some_iff, hStuck x] at hMoves
      cases hMoves
    -- Until the user has hung up, hanging up is a step.
    have hHungUp : l.hungUp = true := by
      by_contra hWaits
      exact hNone _ _ (.hangUp (by simpa using hWaits))
    -- An open session takes what is next in the queue, or is closed.
    have hShut : l.session.isOpen = false := by
      by_contra hOpen
      have hTrue : l.session.isOpen = true := by simpa using hOpen
      cases hPending : l.pending with
      | nil => exact hNone _ _ (.close _ hPending hHungUp (.close hTrue))
      | cons i rest => exact hNone _ _ (.take i rest _ hPending (.input i hTrue))
    have hEmpty : l.session.waiting = [] := by
      by_contra hWaiting
      obtain ⟨place, hPlace⟩ := List.exists_mem_of_ne_nil _ hWaiting
      obtain ⟨a, s, hMoves⟩ :=
        Session.exists_answer (Session.tidy_run (Session.tidy_opened p) h.run) hPlace
      exact hNone _ _ (.answer place a s hMoves)
    exact Session.isOver_iff.mpr ⟨hShut, hEmpty⟩
  · intro hOver x
    have hShut := (Session.isOver_iff.mp hOver).1
    obtain ⟨hHungUp, hPending, hEmpty⟩ := nothingLeft_of_isOver h hOver
    by_contra hSome
    obtain ⟨l', hStep⟩ := Option.ne_none_iff_exists'.mp hSome
    cases step?_eq_some_iff.mp hStep with
    | send i hWaits => simp [hHungUp] at hWaits
    | hangUp hWaits => simp [hHungUp] at hWaits
    | take i rest s hNext _ => simp [hPending] at hNext
    | close s _ _ hMoves =>
      cases hMoves with
      | close hOpen => simp [hShut] at hOpen
    | answer place a s hMoves =>
      cases hMoves with
      | info _ a hWaits _ => simp [hEmpty] at hWaits
      | routes _ r a hWaits _ => simp [hEmpty] at hWaits

/-- What a loop still has to do once the user has hung up: take what is pending, which may have
something sent, receive the answers, and close. -/
def budget (l : Loop) : Nat :=
  2 * l.pending.length + l.session.due + if l.session.isOpen then 1 else 0

theorem hungUp_step {l l' : Loop} {x : Step} (hHungUp : l.hungUp = true) (hMoves : Moves l x l') :
    l'.hungUp = true := by
  cases hMoves with
  | send i hWaits => exact hHungUp
  | hangUp hWaits => rfl
  | take i rest s hPending hNext => exact hHungUp
  | close s hPending _ hNext => exact hHungUp
  | answer place a s hNext => exact hHungUp

theorem budget_step {l l' : Loop} {x : Step} (hAgreed : l.session.planner.Agreed)
    (hHungUp : l.hungUp = true) (hMoves : Moves l x l') : l'.budget < l.budget := by
  cases hMoves with
  | send i hWaits => simp [hHungUp] at hWaits
  | hangUp hWaits => simp [hHungUp] at hWaits
  | take i rest s hPending hNext =>
    -- One input less, which weighs two, and at most one answer more.
    have hDue := Session.due_input hNext
    obtain ⟨hOpen, hOpen'⟩ := Session.isOpen_input hNext
    simp only [budget, hPending, hOpen, hOpen', List.length_cons]
    omega
  | close s hPending _ hNext =>
    cases hNext with
    | close hOpen =>
      have hDue : l.session.close.due = l.session.due := rfl
      have hShut : l.session.close.isOpen = false := rfl
      simp [budget, hPending, hOpen, hDue, hShut]
  | answer place a s hNext =>
    have hDue := Session.due_answer hAgreed hNext
    simp only [budget, Session.isOpen_answer hNext]
    omega

theorem agreed_step {l l' : Loop} {x : Step} (h : l.session.planner.Agreed)
    (hMoves : Moves l x l') : l'.session.planner.Agreed := by
  cases hMoves with
  | send i hWaits => exact h
  | hangUp hWaits => exact h
  | take i rest s hPending hNext => exact Session.agreed_step hNext h
  | close s hPending _ hNext => exact Session.agreed_step hNext h
  | answer place a s hNext => exact Session.agreed_step hNext h

theorem length_le_budget {l l' : Loop} {more : List Step} (hAgreed : l.session.planner.Agreed)
    (hHungUp : l.hungUp = true) (hRun : l.run? more = some l') :
    more.length + l'.budget ≤ l.budget := by
  have hKept := run_induction
    (P := fun more m => m.session.planner.Agreed ∧ m.hungUp = true ∧
      more.length + m.budget ≤ l.budget) ⟨hAgreed, hHungUp, by simp⟩ ?_ hRun
  · exact hKept.2.2
  · rintro more m x m' - ⟨hAgreed', hHungUp', hLe⟩ hMoves
    have hLess := budget_step hAgreed' hHungUp' hMoves
    refine ⟨agreed_step hAgreed' hMoves, hungUp_step hHungUp' hMoves, ?_⟩
    rw [List.length_append, List.length_singleton]
    omega

/-- The user has hung up and nothing is pending. -/
structure Drained (l : Loop) : Prop where
  hungUp : l.hungUp = true
  pending : l.pending = []
  agreed : l.session.planner.Agreed

/-- The session of a drained loop can only be closed or receive an answer. -/
theorem drained_step {l l' : Loop} {x : Step} (h : l.Drained) (hMoves : Moves l x l') :
    l'.Drained ∧ ((x = .take ∧ l'.session = l.session.close) ∨
      ∃ place a, x = .answer place a ∧ l.session.Moves (.answer place a) l'.session) := by
  have hAgreed := agreed_step h.agreed hMoves
  cases hMoves with
  | send i hWaits => simp [h.hungUp] at hWaits
  | hangUp hWaits => simp [h.hungUp] at hWaits
  | take i rest s hNext _ => simp [h.pending] at hNext
  | close s _ _ hNext =>
    cases hNext with
    | close hOpen => exact ⟨⟨h.hungUp, rfl, hAgreed⟩, Or.inl ⟨rfl, rfl⟩⟩
  | answer place a s hNext =>
    exact ⟨⟨h.hungUp, h.pending, hAgreed⟩, Or.inr ⟨place, a, rfl, hNext⟩⟩

theorem arrivals_of_drained {l l' : Loop} {more : List Step} (h : l.Drained)
    (hRun : l.run? more = some l') :
    (arrivals more).length + l'.session.due ≤ l.session.due := by
  have hKept := run_induction
    (P := fun more m => m.Drained ∧ (arrivals more).length + m.session.due ≤ l.session.due)
    ⟨h, by simp [arrivals]⟩ ?_ hRun
  · exact hKept.2
  · rintro more m x m' - ⟨hDrained, hLe⟩ hMoves
    obtain ⟨hDrained', hNext⟩ := drained_step hDrained hMoves
    refine ⟨hDrained', ?_⟩
    rw [arrivals_concat, List.length_append]
    rcases hNext with ⟨rfl, hClosed⟩ | ⟨place, a, rfl, hAnswer⟩
    · rw [hClosed]
      exact hLe
    · have hLess := Session.due_answer hDrained.agreed hAnswer
      have hOne : (arrivals [.answer place a]).length = 1 := rfl
      omega

/-- From a drained loop at most one more request is sent. -/
theorem sent_of_drained {l l' : Loop} {more : List Step} (h : l.Drained)
    (hRun : l.run? more = some l') :
    l'.session.sent = l.session.sent ∨
      ∃ r, l'.session.sent = l.session.sent ++ [.fetchRoutes r] := by
  -- Once it has been sent the server has described itself, and then answers send nothing.
  have hKept := run_induction
    (P := fun _ m => m.Drained ∧
      (m.session.sent = l.session.sent ∨ m.session.planner.info.isSome ∧
        ∃ r, m.session.sent = l.session.sent ++ [.fetchRoutes r])) ⟨h, Or.inl rfl⟩ ?_ hRun
  · exact hKept.2.imp_right And.right
  · rintro more m x m' - ⟨hDrained, hSent⟩ hMoves
    obtain ⟨hDrained', hNext⟩ := drained_step hDrained hMoves
    refine ⟨hDrained', ?_⟩
    rcases hNext with ⟨-, hClosed⟩ | ⟨place, a, -, hAnswer⟩
    · rw [hClosed]
      exact hSent
    · rcases Session.sent_answer hDrained.agreed hAnswer with hSame | ⟨r, hNone, hKnown, hOne⟩
      · rw [hSame]
        exact hSent.imp_right (And.imp_left (Session.info_step hAnswer))
      · rcases hSent with hSame | ⟨hKnown', -⟩
        · exact Or.inr ⟨hKnown, r, by rw [hOne, hSame]⟩
        · simp [hNone] at hKnown'

/-! ## The whole account -/

/-- What has become of everything, at any point of a run. -/
structure Accounts (p : Planner) (steps : List Step) (l : Loop) : Prop where
  /-- The record is what the session has gone through. -/
  record : (Session.opened p).run? l.record = some l.session
  /-- The session has done, once and in order, what the user has done and is not pending. -/
  inputs : Session.inputs l.record ++ l.pending = sends steps
  /-- Each answer has been handled once, in order. -/
  answers : Session.answers l.record = arrivals steps
  /-- The planner has handled the user's events and the answers, and nothing else. -/
  planner : l.session.planner = p.run (.mount :: l.session.handled l.record)
  /-- Everything that the planner has asked for has been sent, once and in order. -/
  sent : l.session.sent = (p.emitted (.mount :: l.session.handled l.record)).flatten
  /-- Each answer has been handled as one to what was sent at its place. -/
  fits : ∀ place a, .answer place a ∈ l.record → ∃ effect e,
    l.session.sent[place]? = some effect ∧ Session.event? effect a = some e ∧
      l.session.event (.answer place a) = some e
  /-- Each place has been answered once, or waits. -/
  places : (Session.answerPlaces l.record ++ l.session.waiting).Perm
    (List.range l.session.sent.length)
  /-- What waits is what has been sent without what has been answered. -/
  waiting : (l.session.sentTo (Session.answerPlaces l.record) ++
    l.session.sentTo l.session.waiting).Perm l.session.sent

/-- How a loop comes to its end. -/
structure Ends (l : Loop) : Prop where
  /-- It stops when its session is over, and then nothing has been left. -/
  stops : (∀ x, l.step? x = none) ↔ l.session.isOver
  nothingLeft : l.session.isOver → l.hungUp = true ∧ l.pending = [] ∧ l.session.waiting = []
  /-- Once the user has hung up and nothing is pending, at most one answer more arrives than what
  waits then, since at most one more request is sent. -/
  drained : l.hungUp = true → l.pending = [] → ∀ more l', l.run? more = some l' →
    (arrivals more).length ≤ l.session.waiting.length + 1 ∧
      (l'.session.sent = l.session.sent ∨
        ∃ r, l'.session.sent = l.session.sent ++ [.fetchRoutes r])
  /-- After the user has hung up it does not go on forever. -/
  bounded : l.hungUp = true → ∀ more l', l.run? more = some l' →
    more.length ≤ 2 * l.pending.length + l.session.waiting.length + 2

theorem accounts_of_records {p : Planner} {steps : List Step} {l : Loop} (h : Records p steps l) :
    Accounts p steps l where
  record := h.run
  inputs := h.inputs
  answers := h.answers
  planner := (Session.planner_sent_run h.run).1
  sent := (Session.planner_sent_run h.run).2
  fits := by
    intro place a hAnswer
    obtain ⟨effect, e, hPlace, hEvent⟩ := Session.answer_run h.run hAnswer
    exact ⟨effect, e, hPlace, hEvent, by simp [Session.event, hPlace, hEvent]⟩
  places := Session.places_run h.run
  waiting := Session.sentTo_run h.run

theorem ends_of_records {p : Planner} (hAgreed : p.Agreed) {steps : List Step} {l : Loop}
    (h : Records p steps l) : Ends l := by
  have hNow : l.session.planner.Agreed :=
    Session.agreed_run h.run (Session.agreed_opened hAgreed)
  have hDue := l.session.due_le
  refine ⟨stops_iff h, nothingLeft_of_isOver h, ?_, ?_⟩
  · intro hHungUp hPending more l' hRun
    have hDrained : l.Drained := ⟨hHungUp, hPending, hNow⟩
    have hLe := arrivals_of_drained hDrained hRun
    exact ⟨by omega, sent_of_drained hDrained hRun⟩
  · intro hHungUp more l' hRun
    have hLe := length_le_budget hNow hHungUp hRun
    have hBudget : l.budget ≤ 2 * l.pending.length + l.session.due + 1 := by
      unfold budget
      split <;> omega
    omega

/-- **The loop loses nothing, repeats nothing and comes to an end.** At any point of any run all that
the user has done, all that the planner has asked for and all answers are accounted for, and from
there the loop stops only when its session is over, which it is after a bounded number of steps once
the user has hung up. -/
theorem accounting {c : Configuration} {location : Url} {now : Instant} {p : Planner}
    (hStart : Planner.start c location now = .ok p) {steps : List Step} {l : Loop}
    (hRun : (start p).run? steps = some l) : Accounts p steps l ∧ Ends l :=
  ⟨accounts_of_records (records_run hRun),
    ends_of_records (Planner.agreed_start hStart) (records_run hRun)⟩

/-- The user sends a trip to the usual planner and hangs up. Once the trip has been taken and the
queue is empty, one request waits, and at most three steps are left. -/
theorem accounting_usual : ∃ l,
    (start Planner.usual).run? [.send (.edit Planner.usualTrip),
      .answer 0 (.info (.ok Planner.usualServer)), .hangUp, .take, .take] = some l ∧
    l.session.waiting = [1] ∧ ∀ more l', l.run? more = some l' → more.length ≤ 3 := by
  have hEvaluated : ((start Planner.usual).run? [.send (.edit Planner.usualTrip),
      .answer 0 (.info (.ok Planner.usualServer)), .hangUp, .take, .take]).map (fun l =>
        (l.session.waiting, l.pending.length, l.hungUp)) = some ([1], 0, true) := by
    decide +kernel
  obtain ⟨l, hRun, hl⟩ := Option.map_eq_some_iff.mp hEvaluated
  simp only [Prod.mk.injEq] at hl
  obtain ⟨hWaiting, hPending, hHungUp⟩ := hl
  obtain ⟨-, hEnds⟩ := accounting Planner.start_usual hRun
  refine ⟨l, hRun, hWaiting, ?_⟩
  intro more l' hMore
  have hLe := hEnds.bounded hHungUp more l' hMore
  rw [hPending, hWaiting] at hLe
  exact hLe

end Loop

end TripPlanner
