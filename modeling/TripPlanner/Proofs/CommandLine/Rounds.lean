import TripPlanner.CommandLine.Output
import TripPlanner.Proofs.Session.Timing

/-!
# The session of a command

The command that plans runs a session with one edit: the user's part comes first, and then there are
two rounds of answers. Each round is a run in which the server answers (`answerAt_run`), and after
the second nothing waits (`waiting_lastOf`), since an answer about routes asks for nothing. So the
command is one of the ways in which such a session can go (`lastOf_run`).
-/

namespace TripPlanner

open CommandLine

/-- The routing server on a network. -/
def Client.server (network : Network) (infoUrl : Url) : Server :=
  ⟨info network infoUrl, routes network⟩

theorem Client.answer_server (network : Network) (infoUrl : Url) :
    (server network infoUrl).answer = answer network infoUrl := by
  funext effect
  cases effect <;> rfl

namespace CommandLine

/-- A run with which a session is over, in which a planner got one edit and a server answered
everything. -/
structure Concludes (v : Server) (start : Planner) (e : Edit) (steps : List Session.Step)
    (s : Session) : Prop where
  run : (Session.opened start).run? steps = some s
  inputs : Session.inputs steps = [.edit e]
  server : Session.AnsweredBy v steps s
  isOver : s.isOver = true

/-- Answers to what waits are steps of a run. -/
theorem answerAt_run (v : Server) (places : List Nat) (s : Session) :
    ∃ steps, s.run? steps = some (answerAt v.answer s places) ∧ Session.inputs steps = [] ∧
      Session.AnsweredBy v steps (answerAt v.answer s places) ∧
      (answerAt v.answer s places).isOpen = s.isOpen := by
  induction places generalizing s with
  | nil => exact ⟨[], rfl, rfl, nofun, rfl⟩
  | cons place places ih =>
    cases hAnswer : s.sent[place]?.bind fun effect => s.answer? place (v.answer effect) with
    | none =>
      have hSame : answerAt v.answer s (place :: places) = answerAt v.answer s places := by
        simp only [answerAt, List.foldl_cons, hAnswer]
      rw [hSame]
      exact ih s
    | some answered =>
      have hNext : answerAt v.answer s (place :: places) = answerAt v.answer answered.1 places := by
        simp only [answerAt, List.foldl_cons, hAnswer]
      rw [hNext]
      obtain ⟨effect, hSent, hAnswered⟩ := Option.bind_eq_some_iff.mp hAnswer
      have hMoves : Session.Moves s (.answer place (v.answer effect)) answered.1 :=
        Session.step?_eq_some_iff.mp (by rw [Session.step?, hAnswered, Option.map_some])
      obtain ⟨steps, hRun, hInputs, hServer, hOpen⟩ := ih answered.1
      refine ⟨.answer place (v.answer effect) :: steps, ?_, hInputs, ?_, ?_⟩
      · rw [Session.run?_of_moves hMoves, hRun]
      · intro place' a hMem
        rcases List.mem_cons.mp hMem with hFirst | hLater
        · cases hFirst
          have hStays := Session.sent_stays ((Session.sent_step hMoves).trans
            (Session.sent_run hRun)) hSent
          rw [hStays, Option.map_some]
        · exact hServer place' a hLater
      · rw [hOpen, Session.isOpen_answer hMoves]

/-- After two rounds of answers nothing waits. -/
theorem waiting_lastOf (v : Server) {start : Planner} (hInert : start.info = none) (e : Edit) :
    let s := ((Session.start start).1.handle (.edit e)).1.close
    let t := answerAt v.answer s s.waiting
    (answerAt v.answer t t.waiting).waiting = [] := by
  intro s t
  generalize hEdited : (start.sync.update (.edit e)).planner = edited
  -- The edit comes while the planner is inert, so the server is only asked to describe itself.
  have hs : s = ⟨edited, [.fetchInfo], [0], false⟩ := by
    have hQuiet : (start.sync.update (.edit e)).effects = [] :=
      Planner.effects_edit_of_inert (p := start.sync) hInert e
    have hHandled := Session.carryOut_of_effects (s := Session.opened start) hQuiet
    rw [hEdited] at hHandled
    exact congrArg Session.close hHandled
  have ht : t = Session.carryOut ⟨edited, [.fetchInfo], [], false⟩
      (edited.update (.info v.info)) := by
    change answerAt v.answer s s.waiting = _
    rw [hs]
    rfl
  rcases Planner.effects_info edited v.info with hNothing | ⟨r, hSent⟩
  · rw [ht, Session.carryOut_of_effects hNothing]
    rfl
  · rw [ht, Session.carryOut_of_effects hSent]
    exact congrArg Session.waiting (Session.carryOut_of_effects
      (s := ⟨_, [.fetchInfo, .fetchRoutes r], [], false⟩) (Planner.effects_routes _ r (v.routes r)))

/-- The command runs a session with one edit to its end. -/
theorem lastOf_run (v : Server) {start : Planner} (hInert : start.info = none) (e : Edit) :
    ∃ steps s, Concludes v start e steps s ∧ lastOf v.answer start e = s.planner := by
  have hWaiting := waiting_lastOf v hInert e
  let s := ((Session.start start).1.handle (.edit e)).1.close
  let t := answerAt v.answer s s.waiting
  obtain ⟨steps, hRun, hInputs, hServer, hOpen⟩ := answerAt_run v s.waiting s
  obtain ⟨steps', hRun', hInputs', hServer', hOpen'⟩ := answerAt_run v t.waiting t
  have hUser : (Session.opened start).run? [.input (.edit e), .close] = some s := rfl
  have hUser' : Session.AnsweredBy v [.input (.edit e), .close] s := by
    intro place a hMem
    simp at hMem
  refine ⟨([.input (.edit e), .close] ++ steps) ++ steps', _, ⟨?_, ?_, ?_, ?_⟩, rfl⟩
  · rw [Session.run?_append, Session.run?_append, hUser, Option.bind_some, hRun, Option.bind_some,
      hRun']
  · rw [Session.inputs_append, Session.inputs_append, hInputs, hInputs']
    rfl
  · exact (hUser'.append hRun hServer).append hRun' hServer'
  · exact Session.isOver_iff.mpr ⟨hOpen'.trans hOpen, hWaiting⟩

end CommandLine

end TripPlanner
