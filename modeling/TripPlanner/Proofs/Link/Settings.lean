import TripPlanner.Proofs.Link.RoundTrip
import Mathlib.Data.List.Nodup

/-!
# Links read name by name

A link is read pair by pair (`Reading.take`): a pair with the name of a setting gives that setting
what its value stands for, in place of what an earlier pair has given, a point is added to the
points so far, and every other pair is passed over. Settings are fields of their own (`Setting.put`),
so that the pairs of one name do nothing to what another name says (`Setting.field_take`), and in the
end each setting has what the last value of its name stands for (`Setting.field_editOfPairs`). What
a link says is therefore settled by the values of each name on their own (`read_by_name`).
-/

namespace TripPlanner.Link

open Text

theorem values_concat (name : String) (ps : List (String × String)) (pair : String × String) :
    values name (ps ++ [pair]) =
      if pair.1 = name then values name ps ++ [pair.2] else values name ps := by
  rw [values_append]
  split
  case isTrue hName =>
    obtain ⟨_, value⟩ := pair
    obtain rfl := hName
    rw [values_cons_self]
    rfl
  case isFalse hName =>
    rw [values_cons_of_ne hName]
    exact List.append_nil _

/-! ## Settings -/

/-- What a link says about a trip besides its ends. -/
inductive Setting where
  | time
  | arriveBy
  | rangeQuery
  | rangeSpan
  | accessProfile
  | accessWeight
  | egressProfile
  | egressWeight
  | streetLimit
  | ignoreTransfers
  deriving DecidableEq

namespace Setting

/-- The settings, in the order in which links give them. -/
def all : List Setting :=
  [.time, .arriveBy, .rangeQuery, .rangeSpan, .accessProfile, .accessWeight, .egressProfile,
    .egressWeight, .streetLimit, .ignoreTransfers]

/-- The name that a setting has in links. -/
def name : Setting → String
  | .time => timeName
  | .arriveBy => arriveByName
  | .rangeQuery => rangeQueryName
  | .rangeSpan => rangeSpanName
  | .accessProfile => accessProfileName
  | .accessWeight => accessWeightName
  | .egressProfile => egressProfileName
  | .egressWeight => egressWeightName
  | .streetLimit => streetLimitName
  | .ignoreTransfers => ignoreTransfersName

/-- What the values of a setting stand for. -/
def Value : Setting → Type
  | .time => Instant
  | .arriveBy => TimeMode
  | .rangeQuery => Bool
  | .rangeSpan => TimeSpan
  | .accessProfile => String
  | .accessWeight => Binary64
  | .egressProfile => String
  | .egressWeight => Binary64
  | .streetLimit => TimeSpan
  | .ignoreTransfers => Bool

/-- What a value of a setting stands for, unless it is malformed. -/
def read : (x : Setting) → String → Option x.Value
  | .time, s => Instant.ofText? (trimmed s)
  | .arriveBy, s => (flag? (trimmed s)).map TimeMode.ofArriveBy
  | .rangeQuery, s => flag? (trimmed s)
  | .rangeSpan, s => span? (trimmed s)
  | .accessProfile, s => profile? (trimmed s)
  | .accessWeight, s => weight? (trimmed s)
  | .egressProfile, s => profile? (trimmed s)
  | .egressWeight, s => weight? (trimmed s)
  | .streetLimit, s => span? (trimmed s)
  | .ignoreTransfers, s => flag? (trimmed s)

/-- What an edit says about a setting. -/
def field : (x : Setting) → Edit → Option x.Value
  | .time, e => e.time
  | .arriveBy, e => e.timeMode
  | .rangeQuery, e => e.rangeQuery
  | .rangeSpan, e => e.rangeSpan
  | .accessProfile, e => e.accessProfile
  | .accessWeight, e => e.accessWeight
  | .egressProfile, e => e.egressProfile
  | .egressWeight, e => e.egressWeight
  | .streetLimit, e => e.streetLimit
  | .ignoreTransfers, e => e.ignoreTransfers

/-- An edit that says something else about a setting, or nothing. -/
def put : (x : Setting) → Option x.Value → Edit → Edit
  | .time, v, e => { e with time := v }
  | .arriveBy, v, e => { e with timeMode := v }
  | .rangeQuery, v, e => { e with rangeQuery := v }
  | .rangeSpan, v, e => { e with rangeSpan := v }
  | .accessProfile, v, e => { e with accessProfile := v }
  | .accessWeight, v, e => { e with accessWeight := v }
  | .egressProfile, v, e => { e with egressProfile := v }
  | .egressWeight, v, e => { e with egressWeight := v }
  | .streetLimit, v, e => { e with streetLimit := v }
  | .ignoreTransfers, v, e => { e with ignoreTransfers := v }

/-- The setting of a name, if the name is that of a setting. -/
def ofName? (name : String) : Option Setting := all.find? (·.name = name)

theorem mem_all (x : Setting) : x ∈ all := by
  cases x <;> decide

theorem name_injective {x y : Setting} (h : x.name = y.name) : x = y := by
  have hNodup : (all.map name).Nodup := by decide
  exact List.inj_on_of_nodup_map hNodup (mem_all x) (mem_all y) h

theorem name_ne_pointName (x : Setting) : x.name ≠ pointName := by
  cases x <;> decide

theorem ofName?_eq_some_iff {name : String} {x : Setting} :
    ofName? name = some x ↔ x.name = name := by
  constructor
  · intro h
    simpa using List.find?_some h
  · rintro rfl
    cases hFound : ofName? x.name with
    | none => simpa using List.find?_eq_none.mp hFound x (mem_all x)
    | some y => exact congrArg some (name_injective (by simpa using List.find?_some hFound))

@[simp] theorem field_put_self (x : Setting) (v : Option x.Value) (e : Edit) :
    x.field (x.put v e) = v := by
  cases x <;> rfl

theorem field_put_of_ne {x y : Setting} (h : y ≠ x) (v : Option y.Value) (e : Edit) :
    x.field (y.put v e) = x.field e := by
  cases x <;> cases y <;> first | rfl | exact absurd rfl h

@[simp] theorem origin_put (x : Setting) (v : Option x.Value) (e : Edit) :
    (x.put v e).origin = e.origin := by
  cases x <;> rfl

@[simp] theorem destination_put (x : Setting) (v : Option x.Value) (e : Edit) :
    (x.put v e).destination = e.destination := by
  cases x <;> rfl

@[simp] theorem auxiliaryDistance_put (x : Setting) (v : Option x.Value) (e : Edit) :
    (x.put v e).auxiliaryDistance = e.auxiliaryDistance := by
  cases x <;> rfl

theorem ext_edit {e e' : Edit} (hFields : ∀ x : Setting, x.field e = x.field e')
    (hOrigin : e.origin = e'.origin) (hDestination : e.destination = e'.destination)
    (hDistance : e.auxiliaryDistance = e'.auxiliaryDistance) : e = e' := by
  cases e
  cases e'
  rw [Edit.mk.injEq]
  exact ⟨hOrigin, hDestination, hFields .time, hFields .arriveBy, hFields .accessProfile,
    hFields .egressProfile, hFields .accessWeight, hFields .egressWeight, hFields .rangeQuery,
    hFields .rangeSpan, hFields .streetLimit, hFields .ignoreTransfers, hDistance⟩

/-- What the last value of a setting stands for. -/
def last (x : Setting) (ps : List (String × String)) : Option x.Value :=
  (values x.name ps).getLast?.bind x.read

theorem last_concat (x : Setting) (ps : List (String × String)) (pair : String × String) :
    x.last (ps ++ [pair]) = if pair.1 = x.name then x.read pair.2 else x.last ps := by
  rw [last, last, values_concat]
  split
  case isTrue => rw [List.getLast?_concat, Option.bind_some]
  case isFalse => rfl

theorem field_editOfPairs (x : Setting) (ps : List (String × String)) :
    x.field (editOfPairs ps) = x.last ps := by
  cases x with
  | arriveBy => exact Option.map_bind
  | _ => rfl

end Setting

/-! ## Pair by pair -/

/-- What has been read of a link: what it says about settings, and its points. -/
structure Reading where
  edit : Edit := {}
  points : List (Option Coordinate) := []

namespace Reading

/-- What has been read after one more pair. -/
def take (r : Reading) (pair : String × String) : Reading :=
  if pair.1 = pointName then { r with points := r.points ++ [point? pair.2] }
  else match Setting.ofName? pair.1 with
    | some x => { r with edit := x.put (x.read pair.2) r.edit }
    | none => r

/-- What a link says once all of it is read: the first point is the origin, and the second the
destination. -/
def ended (r : Reading) : Edit :=
  { r.edit with
    origin := (r.points[0]?.bind id).map some
    destination := (r.points[1]?.bind id).map some }

/-- A pair gives a value to the setting of its name, whatever was there, and to no other. -/
theorem field_take (x : Setting) (r : Reading) (pair : String × String) :
    x.field (r.take pair).edit = if pair.1 = x.name then x.read pair.2 else x.field r.edit := by
  unfold take
  split
  case isTrue hPoint =>
    rw [if_neg fun hName => x.name_ne_pointName (hName.symm.trans hPoint)]
  case isFalse hPoint =>
    split
    case h_1 y hSetting =>
      obtain hName := Setting.ofName?_eq_some_iff.mp hSetting
      by_cases hSame : y = x
      · subst hSame
        rw [if_pos hName.symm, Setting.field_put_self]
      · rw [if_neg fun hOther => hSame (Setting.name_injective (hName.trans hOther)),
          Setting.field_put_of_ne hSame]
    case h_2 hNone =>
      refine (if_neg fun hName => ?_).symm
      rw [Setting.ofName?_eq_some_iff.mpr hName.symm] at hNone
      cases hNone

theorem points_take (r : Reading) (pair : String × String) :
    (r.take pair).points =
      if pair.1 = pointName then r.points ++ [point? pair.2] else r.points := by
  unfold take
  split
  case isTrue => rfl
  case isFalse => split <;> rfl

theorem auxiliaryDistance_take (r : Reading) (pair : String × String) :
    (r.take pair).edit.auxiliaryDistance = r.edit.auxiliaryDistance := by
  unfold take
  split
  case isTrue => rfl
  case isFalse =>
    split
    case h_1 x _ => exact Setting.auxiliaryDistance_put x _ _
    case h_2 => rfl

/-- What has been read after some pairs: of each setting its last value, and all points. -/
theorem read_pairs (ps : List (String × String)) :
    (∀ x : Setting, x.field (ps.foldl take {}).edit = x.last ps) ∧
      (ps.foldl take {}).points = (values pointName ps).map point? ∧
      (ps.foldl take {}).edit.auxiliaryDistance = none := by
  -- A fold takes its last pair last, and the last value is the one that counts.
  induction ps using List.reverseRecOn with
  | nil => exact ⟨fun x => by cases x <;> rfl, rfl, rfl⟩
  | append_singleton ps pair ih =>
    obtain ⟨hFields, hPoints, hDistance⟩ := ih
    rw [List.foldl_append, List.foldl_cons, List.foldl_nil]
    refine ⟨fun x => ?_, ?_, ?_⟩
    · rw [field_take, hFields, Setting.last_concat]
    · rw [points_take, hPoints, values_concat]
      split
      case isTrue => rw [List.map_append, List.map_singleton]
      case isFalse => rfl
    · rw [auxiliaryDistance_take, hDistance]

theorem field_ended (x : Setting) (r : Reading) : x.field r.ended = x.field r.edit := by
  cases x <;> rfl

theorem editOfPairs_eq (ps : List (String × String)) :
    editOfPairs ps = (ps.foldl take {}).ended := by
  obtain ⟨hFields, hPoints, hDistance⟩ := read_pairs ps
  refine Setting.ext_edit (fun x => ?_) ?_ ?_ hDistance.symm
  · rw [Setting.field_editOfPairs, field_ended, hFields]
  · rw [ended, hPoints]
    rfl
  · rw [ended, hPoints]
    rfl

end Reading

/-! ## Name by name -/

/-- The names that links are read for. -/
def names : List String := pointName :: Setting.all.map Setting.name

theorem name_mem_names (x : Setting) : x.name ∈ names :=
  List.mem_cons_of_mem _ (List.mem_map_of_mem (Setting.mem_all x))

theorem values_insert {name : String} {pair : String × String} (h : pair.1 ≠ name)
    (before after : List (String × String)) :
    values name (before ++ pair :: after) = values name (before ++ after) := by
  rw [values_append, values_append, values_cons_of_ne h]

theorem values_swap {a b : String × String} (h : a.1 ≠ b.1) (name : String)
    (before after : List (String × String)) :
    values name (before ++ b :: a :: after) = values name (before ++ a :: b :: after) := by
  by_cases hName : a.1 = name
  · -- The pair of the other name may be left out on both sides.
    have hOther : b.1 ≠ name := fun hSame => h (hName.trans hSame.symm)
    have hLater := values_insert hOther (before ++ [a]) after
    rw [List.append_assoc, List.append_assoc] at hLater
    exact (values_insert hOther before (a :: after)).trans hLater.symm
  · have hLater := values_insert hName (before ++ [b]) after
    rw [List.append_assoc, List.append_assoc] at hLater
    exact hLater.trans (values_insert hName before (b :: after)).symm

/-- Links say the same when the last values of each setting and the first two points are the same. -/
theorem editOfPairs_congr {ps qs : List (String × String)}
    (hSettings : ∀ x : Setting, (values x.name ps).getLast? = (values x.name qs).getLast?)
    (hPoints : (values pointName ps).take 2 = (values pointName qs).take 2) :
    editOfPairs ps = editOfPairs qs := by
  have hPlace : ∀ i < 2, (values pointName ps)[i]? = (values pointName qs)[i]? := by
    intro i hi
    have hAt := congrArg (fun vs : List String => vs[i]?) hPoints
    simpa [List.getElem?_take, hi] using hAt
  refine Setting.ext_edit (fun x => ?_) ?_ ?_ rfl
  · rw [Setting.field_editOfPairs, Setting.field_editOfPairs, Setting.last, Setting.last,
      hSettings x]
  · simp only [editOfPairs, List.getElem?_map, hPlace 0 (by decide)]
  · simp only [editOfPairs, List.getElem?_map, hPlace 1 (by decide)]

theorem end_eq_some_iff {vs : List String} {i : Nat} {place : Option Coordinate} :
    (((vs.map point?)[i]?).bind id).map some = some place ↔
      ∃ s c, vs[i]? = some s ∧ point? s = some c ∧ place = some c := by
  simp only [Option.map_eq_some_iff, Option.bind_eq_some_iff, List.getElem?_map, id]
  constructor
  · rintro ⟨c, ⟨_, ⟨s, hValue, rfl⟩, hPoint⟩, rfl⟩
    exact ⟨s, c, hValue, hPoint, rfl⟩
  · rintro ⟨s, c, hValue, hPoint, rfl⟩
    exact ⟨c, ⟨_, ⟨s, hValue, rfl⟩, hPoint⟩, rfl⟩

/-- **Links are read name by name.** A link is read pair by pair, yet what it says is settled by the
values of each name that is read, and of the points by the first two: pairs of different names may
change places, and pairs of other names, among them the locale and the profile of the routing
server, may come and go. The origin is what the first point writes, and it is not given if that is
no coordinate on the globe; so is the destination with the second point, whatever the first one
is. -/
theorem read_by_name (ps : List (String × String)) :
    editOfPairs ps = (ps.foldl Reading.take {}).ended ∧
      (∀ qs, (∀ x : Setting, values x.name qs = values x.name ps) →
        (values pointName qs).take 2 = (values pointName ps).take 2 →
        editOfPairs qs = editOfPairs ps) ∧
      (∀ before after a b, ps = before ++ a :: b :: after → a.1 ≠ b.1 →
        editOfPairs (before ++ b :: a :: after) = editOfPairs ps) ∧
      (∀ before after pair, ps = before ++ pair :: after → pair.1 ∉ names →
        editOfPairs (before ++ after) = editOfPairs ps) ∧
      (localeName ∉ names ∧ profileName ∉ names) ∧
      (∀ place, (editOfPairs ps).origin = some place ↔
        ∃ s c, (values pointName ps)[0]? = some s ∧ point? s = some c ∧ place = some c) ∧
      ∀ place, (editOfPairs ps).destination = some place ↔
        ∃ s c, (values pointName ps)[1]? = some s ∧ point? s = some c ∧ place = some c := by
  have hSame : ∀ qs, (∀ name ∈ names, values name qs = values name ps) →
      editOfPairs qs = editOfPairs ps := by
    intro qs hValues
    refine editOfPairs_congr (fun x => ?_) ?_
    · rw [hValues x.name (name_mem_names x)]
    · rw [hValues pointName List.mem_cons_self]
  refine ⟨Reading.editOfPairs_eq ps, fun qs hSettings hPoints => ?_, ?_, ?_, by decide,
    fun _ => end_eq_some_iff, fun _ => end_eq_some_iff⟩
  · exact editOfPairs_congr (fun x => congrArg List.getLast? (hSettings x)) hPoints
  · rintro before after a b rfl hOther
    exact hSame _ fun name _ => values_swap hOther name before after
  · rintro before after pair rfl hUnknown
    refine hSame _ fun name hMem => (values_insert ?_ before after).symm
    exact fun hName => hUnknown (hName ▸ hMem)

/-- Two points, the first of which is none, and a third one: only the destination is given. -/
theorem read_by_name_usual :
    let ps := [(pointName, "abc"), (localeName, "de"), (pointName, "3,4"), (pointName, "5,6")]
    (editOfPairs ps).destination = some (some ⟨.ofInt 3, .ofInt 4⟩) ∧
      ∀ place, (editOfPairs ps).origin ≠ some place := by
  intro ps
  obtain ⟨-, -, -, -, -, hOrigin, hDestination⟩ := read_by_name ps
  refine ⟨(hDestination _).mpr ⟨"3,4", ⟨.ofInt 3, .ofInt 4⟩, rfl, by decide +kernel, rfl⟩, ?_⟩
  intro place hPlace
  obtain ⟨s, c, hFirst, hPoint, -⟩ := (hOrigin place).mp hPlace
  obtain rfl : "abc" = s := Option.some.inj hFirst
  have hNone : point? "abc" = none := by decide +kernel
  rw [hNone] at hPoint
  cases hPoint

end TripPlanner.Link
