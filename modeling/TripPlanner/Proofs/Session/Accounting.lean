import TripPlanner.Proofs.Session.Timing

/-!
# What becomes of what is sent

The events that a session has its planner handle are the user's events and the answers, each answer
turned into the event of what it answers (`handled`). Everything the planner asks for meanwhile is
sent, in the same order (`planner_sent_run`), and whatever has been sent is either answered, once,
or waits (`places_run`).

Answers can make the planner send more, but hardly any: only when the server describes itself for
the first time (`sent_answer`). So answers wear down what is still to come (`due`, `due_answer`).
-/

namespace TripPlanner

namespace Session

/-- The event that a step makes in a session in which what it answers has been sent. -/
def event (s : Session) : Step → Option Event
  | .input i => some i.event
  | .answer place a => s.sent[place]?.bind fun effect => event? effect a
  | .close => none

/-- The events that the planner handles in a run to a session, in order. -/
def handled (s : Session) (steps : List Step) : List Event := steps.filterMap s.event

/-- The answers that arrive in a run, with the places at which they were asked for. -/
def answers (steps : List Step) : List (Nat × Answer) :=
  steps.filterMap fun
    | .answer place a => some (place, a)
    | _ => none

/-- The places of these answers. -/
def answerPlaces (steps : List Step) : List Nat := (answers steps).map Prod.fst

/-- What has been sent to some places. -/
def sentTo (s : Session) (places : List Nat) : List Effect := places.filterMap (s.sent[·]?)

/-! ## One step -/

/-- A step has the planner handle its event, whose effects are sent; closing has it handle none. -/
theorem handled_step {s s' : Session} {x : Step} (h : Moves s x s') :
    (∃ e, s.event x = some e ∧ s'.planner = (s.planner.update e).planner ∧
      s'.sent = s.sent ++ (s.planner.update e).effects) ∨
    (x = .close ∧ s'.planner = s.planner ∧ s'.sent = s.sent) := by
  cases h with
  | input i hOpen => exact Or.inl ⟨i.event, rfl, rfl, rfl⟩
  | info place a hWaits hSent =>
    exact Or.inl ⟨.info a, by simp [event, hSent, event?], rfl, rfl⟩
  | routes place r a hWaits hSent =>
    exact Or.inl ⟨.routes r a, by simp [event, hSent, event?], rfl, rfl⟩
  | close hOpen => exact Or.inr ⟨rfl, rfl, rfl⟩

theorem event_of_sent {s s' : Session} {x : Step} {e : Event} (hSent : s.sent <+: s'.sent)
    (h : s.event x = some e) : s'.event x = some e := by
  cases x with
  | input i => exact h
  | answer place a =>
    obtain ⟨effect, hPlace, hEvent⟩ := Option.bind_eq_some_iff.mp h
    exact Option.bind_eq_some_iff.mpr ⟨effect, sent_stays hSent hPlace, hEvent⟩
  | close => exact h

theorem places_carryOut {s : Session} {places : List Nat}
    (h : (places ++ s.waiting).Perm (List.range s.sent.length)) (r : Response) :
    (places ++ (s.carryOut r).waiting).Perm (List.range (s.carryOut r).sent.length) := by
  have hAppend := @List.range'_append_1 0 s.sent.length r.effects.length
  have hRange : List.range (s.carryOut r).sent.length =
      List.range s.sent.length ++ List.range' s.sent.length r.effects.length := by
    rw [Nat.zero_add] at hAppend
    simp only [carryOut, List.length_append, List.range_eq_range', hAppend]
  rw [hRange]
  change (places ++ (s.waiting ++ List.range' s.sent.length r.effects.length)).Perm _
  rw [← List.append_assoc]
  exact h.append_right _

theorem places_received {s : Session} {places : List Nat} {place : Nat}
    (h : (places ++ s.waiting).Perm (List.range s.sent.length)) (hWaits : place ∈ s.waiting) :
    ((places ++ [place]) ++ (s.received place).waiting).Perm (List.range s.sent.length) := by
  rw [List.append_assoc]
  exact ((List.perm_cons_erase hWaits).symm.append_left places).trans h

/-! ## Runs -/

theorem handled_concat (s : Session) (steps : List Step) (x : Step) :
    s.handled (steps ++ [x]) = s.handled steps ++ (s.event x).toList := by
  unfold handled
  rw [List.filterMap_append]
  cases hEvent : s.event x with
  | none => simp [hEvent]
  | some e => simp [hEvent]

theorem answers_concat (steps : List Step) (x : Step) :
    answers (steps ++ [x]) = answers steps ++ answers [x] := List.filterMap_append

theorem answerPlaces_concat (steps : List Step) (x : Step) :
    answerPlaces (steps ++ [x]) = answerPlaces steps ++ answerPlaces [x] := by
  rw [answerPlaces, answers_concat, List.map_append]
  rfl

/-- Every step of a run but the last one of the user makes an event. -/
theorem event_run {s s' : Session} {steps : List Step} (hRun : s.run? steps = some s') :
    ∀ x ∈ steps, x = .close ∨ ∃ e, s'.event x = some e := by
  refine run_induction
    (P := fun steps t => ∀ x ∈ steps, x = .close ∨ ∃ e, t.event x = some e) (by simp) ?_ hRun
  intro steps t y t' _ ih hMoves x hx
  -- What is sent now changes nothing at the places that were answered before.
  have hSent := sent_step hMoves
  rcases List.mem_append.mp hx with hEarlier | hLast
  · rcases ih x hEarlier with hClose | ⟨e, hEvent⟩
    · exact Or.inl hClose
    · exact Or.inr ⟨e, event_of_sent hSent hEvent⟩
  · obtain rfl := List.mem_singleton.mp hLast
    rcases handled_step hMoves with ⟨e, hEvent, -⟩ | ⟨hClose, -⟩
    · exact Or.inr ⟨e, event_of_sent hSent hEvent⟩
    · exact Or.inl hClose

theorem answer_run {s s' : Session} {steps : List Step} (hRun : s.run? steps = some s')
    {place : Nat} {a : Answer} (h : .answer place a ∈ steps) :
    ∃ effect e, s'.sent[place]? = some effect ∧ event? effect a = some e := by
  rcases event_run hRun _ h with hClose | ⟨e, hEvent⟩
  · cases hClose
  · obtain ⟨effect, hPlace, hFits⟩ := Option.bind_eq_some_iff.mp hEvent
    exact ⟨effect, e, hPlace, hFits⟩

/-- What has been handled stays so when more is sent. -/
theorem handled_of_sent {s t t' : Session} {steps : List Step} (hRun : s.run? steps = some t)
    (hSent : t.sent <+: t'.sent) : t'.handled steps = t.handled steps := by
  refine List.filterMap_congr fun x hx => ?_
  rcases event_run hRun x hx with rfl | ⟨e, hEvent⟩
  · rfl
  · rw [hEvent, event_of_sent hSent hEvent]

/-- The planner has handled the events of the run, and what it has asked for has been sent. -/
theorem planner_sent_run {p : Planner} {s : Session} {steps : List Step}
    (hRun : (opened p).run? steps = some s) :
    s.planner = p.run (.mount :: s.handled steps) ∧
      s.sent = (p.emitted (.mount :: s.handled steps)).flatten := by
  refine run_induction
    (P := fun steps t => t.planner = p.run (.mount :: t.handled steps) ∧
      t.sent = (p.emitted (.mount :: t.handled steps)).flatten) ⟨rfl, rfl⟩ ?_ hRun
  intro steps t x t' hBefore ⟨hPlanner, hSent⟩ hMoves
  have hGrown := sent_step hMoves
  rw [handled_concat, handled_of_sent hBefore hGrown]
  rcases handled_step hMoves with ⟨e, hEvent, hPlanner', hSent'⟩ | ⟨rfl, hPlanner', hSent'⟩
  · rw [event_of_sent hGrown hEvent, Option.toList_some, ← List.cons_append, Planner.run_concat,
      Planner.emitted_concat, List.flatten_append, ← hPlanner, ← hSent]
    exact ⟨hPlanner', by simp [hSent']⟩
  · have hNone : t'.event .close = none := rfl
    rw [hNone, Option.toList_none, List.append_nil, hPlanner', hSent']
    exact ⟨hPlanner, hSent⟩

theorem places_run {p : Planner} {s : Session} {steps : List Step}
    (hRun : (opened p).run? steps = some s) :
    (answerPlaces steps ++ s.waiting).Perm (List.range s.sent.length) := by
  refine run_induction
    (P := fun steps t => (answerPlaces steps ++ t.waiting).Perm (List.range t.sent.length))
    (List.Perm.refl _) ?_ hRun
  intro steps t x t' _ ih hMoves
  rw [answerPlaces_concat]
  cases hMoves with
  | input i hOpen => simpa [answerPlaces, answers] using places_carryOut ih _
  | info place a hWaits hSent => exact places_carryOut (places_received ih hWaits) _
  | routes place r a hWaits hSent => exact places_carryOut (places_received ih hWaits) _
  | close hOpen => simpa [answerPlaces, answers, close] using ih

theorem sentTo_run {p : Planner} {s : Session} {steps : List Step}
    (hRun : (opened p).run? steps = some s) :
    (s.sentTo (answerPlaces steps) ++ s.sentTo s.waiting).Perm s.sent := by
  have hPlaces := (places_run hRun).filterMap (s.sent[·]?)
  have hMap : (List.range s.sent.length).map (s.sent[·]?) = s.sent.map some :=
    List.ext_getElem (by simp) (by simp)
  have hAll : (List.range s.sent.length).filterMap (s.sent[·]?) = s.sent := by
    calc (List.range s.sent.length).filterMap (s.sent[·]?)
      _ = ((List.range s.sent.length).map (s.sent[·]?)).filterMap id := by
        rw [List.filterMap_map, Function.id_comp]
      _ = s.sent := by rw [hMap]; simp
  rw [List.filterMap_append, hAll] at hPlaces
  exact hPlaces

/-! ## What is still to come -/

/-- An answer sends nothing, unless the server describes itself for the first time. -/
theorem sent_answer {s s' : Session} {place : Nat} {a : Answer} (hAgreed : s.planner.Agreed)
    (hMoves : Moves s (.answer place a) s') :
    s'.sent = s.sent ∨ ∃ r, s.planner.info = none ∧ s'.planner.info.isSome ∧
      s'.sent = s.sent ++ [.fetchRoutes r] := by
  cases hMoves with
  | info _ a hWaits hSent =>
    by_cases hInfo : s.planner.info.isSome
    · have hNothing := Planner.effects_info_of_known hAgreed hInfo a
      exact Or.inl (by simp [carryOut, hNothing])
    · cases Planner.update_turn s.planner (.info a) with
      | kept _ hNothing => exact Or.inl (by simp [carryOut, hNothing])
      | asked hEvent _ _ => cases hEvent
      | sent r hKnown _ _ hEffects =>
        exact Or.inr ⟨r, by simpa using hInfo, hKnown, by simp [carryOut, hEffects]⟩
      | settled _ _ hEvent _ _ _ => cases hEvent
      | picked _ hEvent _ _ => cases hEvent
  | routes _ r a hWaits hSent =>
    exact Or.inl (by simp [carryOut, Planner.effects_routes])

theorem waiting_answer {s s' : Session} {place : Nat} {a : Answer}
    (hMoves : Moves s (.answer place a) s') :
    s'.waiting.length + 1 + s.sent.length = s.waiting.length + s'.sent.length := by
  have hReceived : ∀ e : Event, place ∈ s.waiting →
      ((s.received place).carryOut (s.planner.update e)).waiting.length + 1 + s.sent.length =
        s.waiting.length + ((s.received place).carryOut (s.planner.update e)).sent.length := by
    intro e hWaits
    have hErase := List.length_erase_of_mem hWaits
    have hPos := List.length_pos_of_mem hWaits
    simp only [carryOut, received, List.length_append, List.length_range']
    omega
  cases hMoves with
  | info _ a hWaits hSent => exact hReceived _ hWaits
  | routes _ r a hWaits hSent => exact hReceived _ hWaits

/-- How many answers can still arrive: those to what waits, and one to what is sent when the server
describes itself for the first time. -/
def due (s : Session) : Nat := s.waiting.length + if s.planner.info = none then 1 else 0

theorem due_le (s : Session) : s.due ≤ s.waiting.length + 1 := by
  unfold due
  split <;> omega

theorem due_answer {s s' : Session} {place : Nat} {a : Answer} (hAgreed : s.planner.Agreed)
    (hMoves : Moves s (.answer place a) s') : s'.due < s.due := by
  have hWaiting := waiting_answer hMoves
  rcases sent_answer hAgreed hMoves with hSent | ⟨r, hNone, hSome, hSent⟩
  · rw [hSent] at hWaiting
    have hInfo : s'.planner.info = none → s.planner.info = none := by
      intro hNone'
      by_contra hKnown
      have := info_step hMoves (Option.ne_none_iff_isSome.mp hKnown)
      simp [hNone'] at this
    unfold due
    by_cases hNone' : s'.planner.info = none
    · rw [if_pos hNone', if_pos (hInfo hNone')]
      omega
    · rw [if_neg hNone']
      omega
  · rw [hSent, List.length_append, List.length_singleton] at hWaiting
    unfold due
    rw [if_neg (Option.ne_none_iff_isSome.mpr hSome), if_pos hNone]
    omega

/-- What the user does makes for one answer at most. -/
theorem due_input {s s' : Session} {i : Input} (hMoves : Moves s (.input i) s') :
    s'.due ≤ s.due + 1 := by
  cases hMoves with
  | input _ hOpen =>
    have hInfo : (s.planner.update i.event).planner.info = s.planner.info := by
      rw [Planner.update_info]
      cases i <;> rfl
    have hEffects := Planner.effects_length_le s.planner i.event
    simp only [due, carryOut, hInfo, List.length_append, List.length_range']
    omega

end Session

end TripPlanner
