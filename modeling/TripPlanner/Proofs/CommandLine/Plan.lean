import TripPlanner.Proofs.CommandLine.Arguments
import TripPlanner.Proofs.CommandLine.Rounds
import TripPlanner.Proofs.Planner.Sharing
import TripPlanner.Proofs.Results.Picks
import TripPlanner.Proofs.Url.Web

/-!
# What the command that plans tells

The command runs a session with one edit to its end and tells what has come of it. A session with
one edit can go many ways (`Ends`), but its planner is the same in the end (`over_of_concludes`): it
depends on the query and on the server only. So what is told can be read off the query and the
answers of the server (`Told`), with one exception. An index is looked up before it is asked whether
there are results, so where an itinerary is picked and none has arrived, a wrong index is told
instead of the query or the request (`Hasty`, `plan_tells`, `untold_usual`).
-/

namespace TripPlanner

open CommandLine

/-! ## Asking the routing server -/

namespace Client

/-- A request is sent to the link that it writes. -/
theorem routes_of_request {p : Planner} {request : String} (hRequest : p.request = some request)
    (hPlace : p.requests.place.Written) (hKeeps : p.requests.place.losesHost = false)
    (network : Network) :
    routes network request = get Itinerary.answerShape network
      (p.requests.format.link p.requests.place p.query) := by
  rw [Planner.request, Requests.canonical] at hRequest
  split at hRequest
  case isFalse => cases hRequest
  case isTrue =>
    cases hRequest
    rw [routes, LinkFormat.link, Url.ofText_withPairs hPlace hKeeps]

/-- A message of success that is understood counts. -/
theorem get_of_message {α : Type} {shape : Json.Shape α} {network : Network} {u : Url}
    {text : String} {a : α} (hWeb : u.IsWeb) (hReply : network u = .message 200 text)
    (hRead : Json.read? shape text = some a) : get shape network u = .ok a := by
  have hScheme : ¬ (u.scheme ≠ "http".toList ∧ u.scheme ≠ "https".toList) := by
    rintro ⟨hHttp, hHttps⟩
    exact hWeb.elim hHttp hHttps
  have hBody : Json.read? shape (body 200 text) = some a := hRead
  simp only [get, if_neg hScheme, hReply, hBody]
  rfl

end Client

/-! ## The planner in the end -/

/-- The results that a server brings to a planner with some query. -/
def Planner.outcome (p : Planner) (v : Server) : Results :=
  match v.description, p.request with
  | some _, some request => Requests.settle request (v.routes request)
  | _, _ => .idle

namespace CommandLine

/-- This is told once a session is over in which a planner got one edit and a server answered
everything. -/
def Ends (c : Configuration) (v : Server) (start : Planner) (e : Edit) (select : Option Nat)
    (result : Except Failure Output) : Prop :=
  ∃ steps s, Concludes v start e steps s ∧ result = report c select s.planner

/-- What a planner has once its session is over: the edited query and what the server brings. -/
structure Over (c : Configuration) (v : Server) (p : Planner) (last : Planner) : Prop where
  info : last.info = v.description
  query : last.query = p.query
  rule : last.rule = p.rule
  results : last.results = p.outcome v
  location : last.bar.location = c.linkFormat.link p.bar.location p.query

theorem over_of_concludes {c : Configuration} {now : Instant} {location : Url} {start : Planner}
    (hStart : Planner.start c location now = .ok start) {v : Server} {e : Edit}
    (hKeeps : e.KeepsEnds) {steps : List Session.Step} {s : Session}
    (h : Concludes v start e steps s) : Over c v (start.edited e) s.planner := by
  have hSteady : ∀ i ∈ Session.inputs steps, i.Steady := by
    intro i hMem
    obtain rfl : i = .edit e := by simpa [h.inputs] using hMem
    exact hKeeps
  obtain ⟨hInfoStart, hResultsStart⟩ := Planner.start_inert hStart
  obtain ⟨hInfo, hIdle, hSettled⟩ := (Session.ahead_run (Planner.agreed_start hStart) hInfoStart
    hResultsStart h.run hSteady h.server).of_isOver h.isOver
  -- All that owes nothing to the server is as after the two events alone.
  have hBare : s.planner.bare = (start.run [.mount, .edit e]).bare := by
    rw [Session.bare_run h.run, h.inputs]
    rfl
  have hQuery : s.planner.query = (start.edited e).query :=
    (congrArg Planner.query hBare).trans (Planner.run_query start _)
  have hRequest : s.planner.request = (start.edited e).request := by
    have hRequests : s.planner.requests = start.requests :=
      (congrArg Planner.requests hBare).trans (Planner.run_requests start _)
    rw [Planner.request, hRequests, hQuery]
    rfl
  refine ⟨hInfo, hQuery, (congrArg Planner.rule hBare).trans (Planner.run_rule start _), ?_, ?_⟩
  · rw [Planner.outcome, ← hRequest, ← hInfo]
    split
    case h_1 description request hKnown hMade =>
      exact hSettled request (by rw [hKnown]; rfl) hMade
    case h_2 hEarly =>
      refine hIdle ?_
      cases hKnown : s.planner.info with
      | none => exact Or.inl rfl
      | some description =>
        cases hMade : s.planner.request with
        | none => exact Or.inr rfl
        | some request => exact (hEarly _ _ hKnown hMade).elim
  · have hLocation : (start.run [.mount, .edit e]).bar.location =
        c.linkFormat.link location (start.run [.mount, .edit e]).query :=
      Planner.location_run hStart List.mem_cons_self
    have hPage : (start.edited e).bar.location = location := by
      obtain ⟨place, -, rfl⟩ := Planner.start_eq_ok hStart
      rfl
    rw [hPage]
    exact (congrArg (·.bar.location) hBare).trans
      (hLocation.trans (by rw [Planner.run_query]))

/-! ## What is told -/

/-- The itineraries of an answer, whichever of them is picked. -/
structure Shows (request : String) (paths : List Itinerary) (r : Results) : Prop where
  request : r.request = some request
  progress : r.progress = .succeeded
  paths : r.paths.map Results.unpicked = paths.map Results.unpicked
  marked : r.Marked

namespace Shows

variable {request : String} {paths : List Itinerary} {r r' : Results}

theorem succeeded (request : String) (paths : List Itinerary) :
    Shows request paths (.succeeded request paths) where
  request := rfl
  progress := rfl
  paths := Results.map_unpicked_succeeded request paths
  marked := Results.marked_succeeded request paths

theorem pick (h : Shows request paths r) {rule : SelectionRule} {index : Nat}
    (hPick : rule.pick r index = .ok r') : Shows request paths r' := by
  obtain ⟨-, hRequest, hProgress, hPaths⟩ := SelectionRule.pick_eq_ok hPick
  exact ⟨hRequest.trans h.request, hProgress.trans h.progress, hPaths.trans h.paths,
    SelectionRule.marked_pick h.marked hPick⟩

theorem isPossible (h : Shows request paths r) (index : Nat) :
    (r.paths[index]?).map Itinerary.isPossible = (paths[index]?).map Itinerary.isPossible := by
  have hUnpicked : (r.paths[index]?).map Results.unpicked =
      (paths[index]?).map Results.unpicked := by
    rw [← List.getElem?_map, ← List.getElem?_map, h.paths]
  -- Whether an itinerary is possible does not depend on its mark.
  have hBlind : Itinerary.isPossible ∘ Results.unpicked = Itinerary.isPossible := rfl
  have hPossible := congrArg (Option.map Itinerary.isPossible) hUnpicked
  rwa [Option.map_map, Option.map_map, hBlind] at hPossible

theorem length (h : Shows request paths r) : r.paths.length = paths.length := by
  have hLength := congrArg List.length h.paths
  rwa [List.length_map, List.length_map] at hLength

/-- What comes of a pick by index. -/
theorem pick_cases (h : Shows request paths r) (rule : SelectionRule) (index : Nat) :
    (paths.length ≤ index ∧
      rule.pick r index = .error (.selectionOutOfRange index paths.length)) ∨
    (∃ path, paths[index]? = some path ∧ rule = .feasibleOnly ∧ path.isPossible = false ∧
      rule.pick r index = .error (.infeasibleSelection index)) ∨
    ∃ path r', paths[index]? = some path ∧ (rule = .feasibleOnly → path.isPossible = true) ∧
      rule.pick r index = .ok r' ∧ r'.selected = index := by
  have hPossible := h.isPossible index
  cases hShown : r.paths[index]? with
  | none =>
    left
    rw [← h.length]
    exact ⟨List.getElem?_eq_none_iff.mp hShown, by rw [SelectionRule.pick, hShown]⟩
  | some shown =>
    right
    rw [hShown, Option.map_some] at hPossible
    obtain ⟨path, hPath, hSame⟩ := Option.map_eq_some_iff.mp hPossible.symm
    by_cases hRefused : rule = .feasibleOnly ∧ path.isPossible = false
    · refine Or.inl ⟨path, hPath, hRefused.1, hRefused.2, ?_⟩
      simp [SelectionRule.pick, hShown, ← hSame, hRefused]
    · refine Or.inr ⟨path, SelectionRule.move r index, hPath, ?_, ?_, rfl⟩
      · intro hRule
        simpa using fun hImpossible => hRefused ⟨hRule, hImpossible⟩
      · exact SelectionRule.pick_eq_ok_iff.mpr ⟨shown, hShown, hSame ▸ hRefused, rfl⟩

end Shows

/-- The itinerary of an index is picked, or without an index the first possible one. -/
def Picks (select : Option Nat) (r : Results) : Prop :=
  match select with
  | some index => r.selected = index
  | none => r.Foremost

/-- What is told of a query, by the answers of the server. -/
inductive Told (c : Configuration) (v : Server) (p : Planner) (select : Option Nat) :
    Except Failure Output → Prop
  /-- The server has not described itself. -/
  | inert (hInfo : v.description = none) :
      Told c v p select (.error (.inert ("no server info from " ++ c.baseText)))
  /-- There is no request, since the query is not complete. -/
  | incomplete (hInfo : v.description.isSome) (hRequest : p.request = none) :
      Told c v p select
        (.error (.routes "query is incomplete, both --from and --to are required"))
  /-- The request has failed. -/
  | failed (request : String) (fault : RequestFault) (hInfo : v.description.isSome)
      (hRequest : p.request = some request) (hAnswer : v.routes request = .error fault) :
      Told c v p select (.error (.routes request))
  /-- There is no itinerary of the index that is asked for. -/
  | outOfRange (request : String) (paths : List Itinerary) (index : Nat)
      (hInfo : v.description.isSome) (hRequest : p.request = some request)
      (hAnswer : v.routes request = .ok paths) (hSelect : select = some index)
      (hIndex : paths.length ≤ index) :
      Told c v p select (.error (.selectionOutOfRange index paths.length))
  /-- The itinerary that is asked for is not possible, and only possible ones may be picked. -/
  | infeasible (request : String) (paths : List Itinerary) (index : Nat) (path : Itinerary)
      (hInfo : v.description.isSome) (hRequest : p.request = some request)
      (hAnswer : v.routes request = .ok paths) (hSelect : select = some index)
      (hPath : paths[index]? = some path) (hRule : p.rule = .feasibleOnly)
      (hImpossible : path.isPossible = false) :
      Told c v p select (.error (.infeasibleSelection index))
  /-- The itineraries are shown. -/
  | shown (info : ServiceInfo) (request : String) (paths : List Itinerary) (r : Results)
      (hInfo : v.description = some info) (hRequest : p.request = some request)
      (hAnswer : v.routes request = .ok paths) (hShows : Shows request paths r)
      (hAllowed : ∀ index ∈ select, ∃ path, paths[index]? = some path ∧
        (p.rule = .feasibleOnly → path.isPossible = true))
      (hPicks : Picks select r) :
      Told c v p select (.ok ⟨line (Json.Value.record [("info", info.value),
        ("query", p.query.value), ("routes", r.value)]).pretty,
        line (c.linkFormat.link p.bar.location p.query).text⟩)

/-- An itinerary is picked before any has arrived: the server has described itself, but the query is
not complete or its request fails. -/
def Hasty (v : Server) (p : Planner) (select : Option Nat) : Prop :=
  v.description.isSome ∧ select.isSome ∧
    ∀ request paths, p.request = some request → v.routes request ≠ .ok paths

variable {c : Configuration} {v : Server} {p last : Planner} {select : Option Nat}

theorem not_told_of_hasty (hHasty : Hasty v p select) (index : Nat) :
    ¬ Told c v p select (.error (.selectionOutOfRange index 0)) := by
  intro h
  generalize hResult : Except.error (Failure.selectionOutOfRange index 0) = result at h
  cases h with
  | outOfRange request paths _ _ hRequest hAnswer _ _ =>
    exact hHasty.2.2 request paths hRequest hAnswer
  | inert _ => cases hResult
  | incomplete _ _ => cases hResult
  | failed _ _ _ _ _ => cases hResult
  | infeasible _ _ _ _ _ _ _ _ _ _ _ => cases hResult
  | shown _ _ _ _ _ _ _ _ _ _ => cases hResult

/-- Where itineraries have arrived and the one that is asked for is possible, they are shown. -/
theorem Told.exists_output {result : Except Failure Output} (h : Told c v p select result)
    (hInfo : v.description.isSome) {request : String} {paths : List Itinerary}
    (hRequest : p.request = some request) (hAnswer : v.routes request = .ok paths)
    (hPossible : ∀ index ∈ select, ∃ path, paths[index]? = some path ∧ path.isPossible = true) :
    ∃ output, result = .ok output := by
  cases h with
  | inert hNone =>
    rw [hNone] at hInfo
    cases hInfo
  | incomplete _ hNone =>
    rw [hNone] at hRequest
    cases hRequest
  | failed request' fault _ hMade hFault =>
    obtain rfl : request = request' := Option.some.inj (hRequest.symm.trans hMade)
    rw [hAnswer] at hFault
    cases hFault
  | outOfRange request' paths' index _ hMade hBrought hSelect hIndex =>
    obtain rfl : request = request' := Option.some.inj (hRequest.symm.trans hMade)
    obtain rfl : paths = paths' := Except.ok.inj (hAnswer.symm.trans hBrought)
    obtain ⟨path, hPath, -⟩ := hPossible index hSelect
    rw [List.getElem?_eq_none hIndex] at hPath
    cases hPath
  | infeasible request' paths' index path _ hMade hBrought hSelect hPath _ hImpossible =>
    obtain rfl : request = request' := Option.some.inj (hRequest.symm.trans hMade)
    obtain rfl : paths = paths' := Except.ok.inj (hAnswer.symm.trans hBrought)
    obtain ⟨path', hSame, hTrue⟩ := hPossible index hSelect
    obtain rfl : path = path' := Option.some.inj (hPath.symm.trans hSame)
    rw [hImpossible] at hTrue
    cases hTrue
  | shown _ _ _ _ _ _ _ _ _ _ => exact ⟨_, rfl⟩

theorem report_inert (h : Over c v p last) (hInfo : v.description = none) :
    report c select last = .error (.inert ("no server info from " ++ c.baseText)) := by
  unfold report
  rw [h.info, hInfo]
  rfl

theorem report_none (h : Over c v p last) (hInfo : v.description.isSome) :
    report c none last = outputOf last := by
  obtain ⟨info, hInfo⟩ := Option.isSome_iff_exists.mp hInfo
  unfold report
  rw [h.info, hInfo]
  rfl

theorem report_some (h : Over c v p last) (hInfo : v.description.isSome) (index : Nat) :
    report c (some index) last = last.select index >>= outputOf := by
  obtain ⟨info, hInfo⟩ := Option.isSome_iff_exists.mp hInfo
  unfold report
  rw [h.info, hInfo]
  rfl

theorem report_of_bare (h : Over c v p last) (hInfo : v.description.isSome)
    (hBare : last.results.paths = []) (index : Nat) :
    report c (some index) last = .error (.selectionOutOfRange index 0) := by
  rw [report_some h hInfo, Planner.select, SelectionRule.pick, hBare]
  rfl

theorem outcome_of_none (hRequest : p.request = none) : p.outcome v = .idle := by
  rw [Planner.outcome, hRequest]
  cases v.description <;> rfl

theorem outcome_of_some (hInfo : v.description.isSome) {request : String}
    (hRequest : p.request = some request) :
    p.outcome v = Requests.settle request (v.routes request) := by
  obtain ⟨info, hInfo⟩ := Option.isSome_iff_exists.mp hInfo
  rw [Planner.outcome, hInfo, hRequest]

theorem report_incomplete (h : Over c v p last) (hInfo : v.description.isSome)
    (hRequest : p.request = none) :
    report c none last =
        .error (.routes "query is incomplete, both --from and --to are required") ∧
      ∀ index, report c (some index) last = .error (.selectionOutOfRange index 0) := by
  have hResults : last.results = .idle := h.results.trans (outcome_of_none hRequest)
  refine ⟨?_, report_of_bare h hInfo (by rw [hResults]; rfl)⟩
  rw [report_none h hInfo, outputOf, hResults]
  rfl

theorem report_failed (h : Over c v p last) (hInfo : v.description.isSome) {request : String}
    {fault : RequestFault} (hRequest : p.request = some request)
    (hAnswer : v.routes request = .error fault) :
    report c none last = .error (.routes request) ∧
      ∀ index, report c (some index) last = .error (.selectionOutOfRange index 0) := by
  have hResults : last.results = .failed request := by
    rw [h.results, outcome_of_some hInfo hRequest, hAnswer]
    rfl
  refine ⟨?_, report_of_bare h hInfo (by rw [hResults]; rfl)⟩
  rw [report_none h hInfo, outputOf, hResults]
  rfl

theorem outputOf_succeeded (h : Over c v p last) {info : ServiceInfo}
    (hInfo : v.description = some info) {r : Results} (hProgress : r.progress = .succeeded) :
    outputOf { last with results := r } =
      .ok ⟨line (Json.Value.record [("info", info.value), ("query", p.query.value),
        ("routes", r.value)]).pretty, line (c.linkFormat.link p.bar.location p.query).text⟩ := by
  have hView : { last with results := r }.view = some (.record [("info", info.value),
      ("query", p.query.value), ("routes", r.value)]) := by
    rw [Planner.view, h.info, hInfo, h.query]
    rfl
  rw [outputOf, hView, h.location]
  simp only [hProgress]
  rfl

/-- Where itineraries have arrived, it is told what has come of picking one. -/
theorem told_of_paths (h : Over c v p last) {info : ServiceInfo}
    (hInfo : v.description = some info) {request : String} {paths : List Itinerary}
    (hRequest : p.request = some request) (hAnswer : v.routes request = .ok paths) :
    Told c v p select (report c select last) := by
  have hKnown : v.description.isSome := by rw [hInfo]; rfl
  have hResults : last.results = .succeeded request paths := by
    rw [h.results, outcome_of_some hKnown hRequest, hAnswer]
    rfl
  have hShows : Shows request paths last.results := hResults ▸ Shows.succeeded request paths
  cases select with
  | none =>
    have hOutput := outputOf_succeeded h hInfo hShows.progress
    rw [report_none h hKnown, hOutput]
    refine .shown info request paths last.results hInfo hRequest hAnswer hShows nofun ?_
    exact hResults ▸ Results.foremost_succeeded request paths
  | some index =>
    rw [report_some h hKnown, Planner.select]
    rcases hShows.pick_cases last.rule index with
      ⟨hIndex, hPick⟩ | ⟨path, hPath, hRule, hImpossible, hPick⟩ |
        ⟨path, r, hPath, hAllowed, hPick, hPicked⟩
    · rw [hPick]
      exact .outOfRange request paths index hKnown hRequest hAnswer rfl hIndex
    · rw [hPick]
      exact .infeasible request paths index path hKnown hRequest hAnswer rfl hPath
        (h.rule ▸ hRule) hImpossible
    · rw [hPick]
      have hOutput := outputOf_succeeded h hInfo (hShows.pick hPick).progress
      show Told c v p (some index) (outputOf { last with results := r })
      rw [hOutput]
      refine .shown info request paths r hInfo hRequest hAnswer (hShows.pick hPick) ?_ hPicked
      intro index' hMem
      obtain rfl : index = index' := by simpa using hMem
      exact ⟨path, hPath, h.rule ▸ hAllowed⟩

/-- Where no itineraries have arrived, either that is told or an itinerary is picked hastily. -/
theorem told_or_hasty (h : Over c v p last) (hInfo : v.description.isSome)
    (hNone : ∀ request paths, p.request = some request → v.routes request ≠ .ok paths) :
    select = none ∧ Told c v p select (report c select last) ∨
      ∃ index, select = some index ∧
        report c select last = .error (.selectionOutOfRange index 0) := by
  cases hRequest : p.request with
  | none =>
    obtain ⟨hTold, hWrong⟩ := report_incomplete h hInfo hRequest
    cases select with
    | none => exact Or.inl ⟨rfl, hTold ▸ .incomplete hInfo hRequest⟩
    | some index => exact Or.inr ⟨index, rfl, hWrong index⟩
  | some request =>
    cases hAnswer : v.routes request with
    | ok paths => exact (hNone request paths hRequest hAnswer).elim
    | error fault =>
      obtain ⟨hTold, hWrong⟩ := report_failed h hInfo hRequest hAnswer
      cases select with
      | none => exact Or.inl ⟨rfl, hTold ▸ .failed request fault hInfo hRequest hAnswer⟩
      | some index => exact Or.inr ⟨index, rfl, hWrong index⟩

theorem report_tells (h : Over c v p last) :
    (Told c v p select (report c select last) ↔ ¬ Hasty v p select) ∧
      (Hasty v p select → ∃ index, select = some index ∧
        report c select last = .error (.selectionOutOfRange index 0)) := by
  have hHasty : Hasty v p select → ∃ index, select = some index ∧
      report c select last = .error (.selectionOutOfRange index 0) := by
    rintro ⟨hInfo, hSelect, hNone⟩
    refine (told_or_hasty h hInfo hNone).resolve_left ?_
    rintro ⟨rfl, -⟩
    cases hSelect
  refine ⟨⟨fun hTold hBefore => ?_, fun hNot => ?_⟩, hHasty⟩
  · obtain ⟨index, -, hResult⟩ := hHasty hBefore
    exact not_told_of_hasty hBefore index (hResult ▸ hTold)
  · cases hInfo : v.description with
    | none => exact report_inert h hInfo ▸ .inert hInfo
    | some info =>
      have hKnown : v.description.isSome := by rw [hInfo]; rfl
      by_cases hPaths : ∃ request paths, p.request = some request ∧ v.routes request = .ok paths
      · obtain ⟨request, paths, hRequest, hAnswer⟩ := hPaths
        exact told_of_paths h hInfo hRequest hAnswer
      · have hNone : ∀ request paths, p.request = some request → v.routes request ≠ .ok paths :=
          fun request paths hRequest hAnswer => hPaths ⟨request, paths, hRequest, hAnswer⟩
        rcases told_or_hasty h hKnown hNone with ⟨-, hTold⟩ | ⟨index, hSelect, -⟩
        · exact hTold
        · exact (hNot ⟨hKnown, by rw [hSelect]; rfl, hNone⟩).elim

/-- **The command that plans tells what has come of the query.** Take a configuration that has
passed its check, a planner that starts at an initial link or at the page, and any arguments.
The command is one of the ways in which a session with the edit of the arguments can go. Whichever
way it goes, and whatever the server answers, it is told at first whether the server has described
itself, then whether the query is complete and its request has succeeded, then whether the
itinerary of the index may be picked, and at last the itineraries with their pick are shown, never
those of a request that is on its way. There is one exception, exactly where an itinerary is picked
before any has arrived: it is then told that the index is out of range. -/
theorem plan_tells {c : Configuration} (hCheck : c.check = .ok ()) {around : Surroundings}
    {link : Option String} {start : Planner} (hStart : plannerAt c around.now link = .ok start)
    {arguments : List String} {file : Option String} {e : Edit} {select : Option Nat}
    (hArguments : Invocation.ofArguments arguments = .ok ⟨file, .plan e link select⟩) :
    (∃ infoUrl, Client.infoUrl c = .ok infoUrl ∧
      Ends c (Client.server around.network infoUrl) start e select
        (plan c around e link select)) ∧
      ∀ v result, Ends c v start e select result →
        (Told c v (start.edited e) select result ↔ ¬ Hasty v (start.edited e) select) ∧
          (Hasty v (start.edited e) select →
            ∃ index, select = some index ∧ result = .error (.selectionOutOfRange index 0)) := by
  obtain ⟨location, -, hAt⟩ := Planner.plannerAt_eq_ok hStart
  constructor
  · obtain ⟨infoPlace, hPlace⟩ := (Configuration.checked_of_check hCheck).infoPlace
    have hInfoUrl : Client.infoUrl c = .ok infoPlace := by
      rw [Client.infoUrl, Checks.mapError_eq_ok.mp hPlace]
      rfl
    obtain ⟨steps, s, hConcludes, hLast⟩ :=
      lastOf_run (Client.server around.network infoPlace) (Planner.start_inert hAt).1 e
    refine ⟨infoPlace, hInfoUrl, steps, s, hConcludes, ?_⟩
    rw [plan, hStart, hInfoUrl, ← hLast, Client.answer_server]
    rfl
  · rintro v result ⟨steps, s, hConcludes, rfl⟩
    exact report_tells (over_of_concludes hAt (Invocation.keepsEnds_ofArguments hArguments)
      hConcludes)

/-- Where the usual configuration asks the server to describe itself. -/
def usualInfoPlace : Url := { Planner.usualPage with path := .segments ["info".toList] }

theorem plannerAt_usual : plannerAt {} Planner.newYear none = .ok Planner.usual := by
  have hPage : Configuration.pagePlace {} = .ok Planner.usualPage := by decide +kernel
  rw [plannerAt, hPage]
  exact Planner.start_usual

/-- Surroundings in which every request is answered by two ways to go. -/
def twoWays : Surroundings :=
  ⟨fun _ => none, fun _ => .message 200 "\x7b\"paths\":[\x7b\x7d,\x7b\x7d]\x7d", Planner.newYear⟩

/-- There the usual trip brings two possible itineraries. -/
theorem routes_twoWays : ∃ request paths,
    (Planner.usual.edited Planner.usualTrip).request = some request ∧
      (Client.server twoWays.network usualInfoPlace).routes request = .ok paths ∧
      paths.map (·.isPossible) = [true, true] := by
  have hComplete : (Planner.usual.edited Planner.usualTrip).request.isSome := by decide +kernel
  obtain ⟨request, hRequest⟩ := Option.isSome_iff_exists.mp hComplete
  have hPlace : Url.ofText "http://localhost:8989/route" = .ok Planner.usualRoutePlace := by
    decide +kernel
  have hPaths : (Json.read? Itinerary.answerShape
      "\x7b\"paths\":[\x7b\x7d,\x7b\x7d]\x7d").map (fun paths => paths.map (·.isPossible)) =
        some [true, true] := by decide +kernel
  obtain ⟨paths, hRead, hPossible⟩ := Option.map_eq_some_iff.mp hPaths
  refine ⟨request, paths, hRequest, ?_, hPossible⟩
  exact (Client.routes_of_request hRequest (Url.written_of_resolve hPlace) rfl _).trans
    (Client.get_of_message (.inl rfl) rfl hRead)

/-- The usual trip brings two itineraries, and the second one is picked and shown. -/
theorem plan_tells_usual :
    Invocation.ofArguments ["plan", "--from", "1,2", "--to", "3,4", "--select", "1"] =
        .ok ⟨none, .plan Planner.usualTrip none (some 1)⟩ ∧
      ∃ v output, v.description.isSome ∧
        (Planner.usual.edited Planner.usualTrip).request.isSome ∧
        plan {} twoWays Planner.usualTrip none (some 1) = .ok output ∧
        Told {} v (Planner.usual.edited Planner.usualTrip) (some 1) (.ok output) := by
  have hCheck : Configuration.check {} = .ok () := by decide +kernel
  have hStart : plannerAt {} twoWays.now none = .ok Planner.usual := plannerAt_usual
  have hArguments : Invocation.ofArguments
      ["plan", "--from", "1,2", "--to", "3,4", "--select", "1"] =
        .ok ⟨none, .plan Planner.usualTrip none (some 1)⟩ := by decide +kernel
  obtain ⟨⟨infoUrl, hInfoUrl, hEnds⟩, hTells⟩ := plan_tells hCheck hStart hArguments
  obtain rfl : usualInfoPlace = infoUrl := Except.ok.inj (Eq.trans (by decide +kernel) hInfoUrl)
  have hInfo : (Client.server twoWays.network usualInfoPlace).description.isSome := by
    decide +kernel
  obtain ⟨request, paths, hRequest, hAnswer, hPossible⟩ := routes_twoWays
  have hTold := (hTells _ _ hEnds).1.mpr fun hHasty => hHasty.2.2 request paths hRequest hAnswer
  have hSecond : paths[1]?.map (·.isPossible) = some true := by
    rw [← List.getElem?_map, hPossible]
    rfl
  obtain ⟨path, hPath, hTrue⟩ := Option.map_eq_some_iff.mp hSecond
  obtain ⟨output, hOutput⟩ := hTold.exists_output hInfo hRequest hAnswer fun index hIndex => by
    cases hIndex
    exact ⟨path, hPath, hTrue⟩
  exact ⟨hArguments, _, output, hInfo, by rw [hRequest]; rfl, hOutput, hOutput ▸ hTold⟩

/-- Surroundings in which every request is answered by an empty record. -/
def emptyAnswers : Surroundings := ⟨fun _ => none, fun _ => .message 200 "{}", Planner.newYear⟩

/-- With an index as the only argument the query is not complete either, but it is told that the
index is out of range. -/
theorem untold_usual :
    Invocation.ofArguments ["plan", "--select", "0"] = .ok ⟨none, .plan {} none (some 0)⟩ ∧
      plannerAt {} emptyAnswers.now none = .ok Planner.usual ∧
      Client.infoUrl {} = .ok usualInfoPlace ∧
      (Client.server emptyAnswers.network usualInfoPlace).description.isSome ∧
      (Planner.usual.edited {}).request = none ∧
      plan {} emptyAnswers {} none (some 0) = .error (.selectionOutOfRange 0 0) ∧
      ¬ Told {} (Client.server emptyAnswers.network usualInfoPlace) (Planner.usual.edited {})
        (some 0) (plan {} emptyAnswers {} none (some 0)) := by
  have hInfo : (Client.server emptyAnswers.network usualInfoPlace).description.isSome := by
    decide +kernel
  have hRequest : (Planner.usual.edited {}).request = none := by decide +kernel
  have hPlan : plan {} emptyAnswers {} none (some 0) = .error (.selectionOutOfRange 0 0) := by
    decide +kernel
  refine ⟨by decide +kernel, plannerAt_usual, by decide +kernel, hInfo, hRequest, hPlan, ?_⟩
  rw [hPlan]
  refine not_told_of_hasty ⟨hInfo, rfl, fun request paths hMade => ?_⟩ 0
  rw [hRequest] at hMade
  cases hMade

end CommandLine

end TripPlanner
