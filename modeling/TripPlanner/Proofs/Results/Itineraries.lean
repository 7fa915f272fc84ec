import TripPlanner.Itinerary
import TripPlanner.Proofs.Json.Records
import TripPlanner.Proofs.Json.Texts
import TripPlanner.Proofs.Results.Paths

/-!
# Itineraries read once and for all

An itinerary is read from a record with any members. What is kept says whether it is possible, and
has the other members with their values (`Itinerary.Normalizes`). Nothing that the reader looks at
is left among these (`Itinerary.Carried`), so an itinerary that has been read is read again as it
was written, and an answer is read again item by item.
-/

namespace TripPlanner

open Json

namespace Itinerary

/-! ## What an itinerary keeps of a record -/

/-- The truth value under a name, if there is one. -/
def flag? (members : List (Option String × Tree)) (name : String) : Option Bool :=
  match Tree.last? members name with
  | some (.bool b) => some b
  | _ => none

/-- An itinerary keeps what a record says, whose members may open so many levels. -/
structure Normalizes (depth : Nat) (members : List (Option String × Tree)) (i : Itinerary) :
    Prop where
  isPossible : i.isPossible = match flag? members "isPossible", flag? members "impossible" with
    | some possible, _ => possible
    | none, some impossible => !impossible
    | none, none => true
  isSelected : i.isSelected = false
  /-- The other members, and no more, each with its value. -/
  others : ∀ name,
    (if name ∈ names then none else Tree.last? members name).map (Tree.value? depth) =
      (i.others.lookup name).map some
  ordered : i.others.Ordered

/-- The rest of an itinerary is carried along: it is sorted, it is not nested too deeply, and it has
no member that the reader looks at. -/
structure Carried (depth : Nat) (i : Itinerary) : Prop where
  ordered : i.others.Ordered
  fits : i.others.Fits depth
  unreserved : ∀ m ∈ i.others, m.1 ∉ names

variable {r inner : Reading} {members : List (Option String × Tree)} {i : Itinerary}

/-- A truth value or null, read from a known member. -/
theorem flag?_eq {fields : Fields} (hNamed : fields.positional = false) {name : String}
    (hKnown : fields.known.lookup name = Tree.last? members name) {b : Option Bool}
    (h : fields.optional name Shape.bool = some b) :
    b = flag? members name ∧
      ∀ t ∈ Tree.last? members name, t = .null ∨ ∃ value, t = .bool value := by
  rw [Fields.optional, hKnown] at h
  rw [flag?]
  cases hMember : Tree.last? members name with
  | none =>
    rw [hMember, hNamed] at h
    cases h
    exact ⟨rfl, nofun⟩
  | some t =>
    rw [hMember] at h
    cases t with
    | null =>
      cases h
      exact ⟨rfl, fun t hMem => .inl (Option.some.inj hMem).symm⟩
    | bool value =>
      cases h
      exact ⟨rfl, fun t hMem => .inr ⟨value, (Option.some.inj hMem).symm⟩⟩
    | _ => cases h

/-- What it takes to read an itinerary. -/
theorem shape_eq_some {t : Tree} (h : shape r t = some i) :
    ∃ members, t = .record members ∧ i.Normalizes (r.depth - 1) members ∧
      i.Carried (r.depth - 1) ∧
      ∀ name ∈ names, ∀ t, (some name, t) ∈ members → t = .null ∨ ∃ b, t = .bool b := by
  simp only [shape, Option.bind_eq_bind, Option.bind_eq_some_iff, Prod.exists] at h
  obtain ⟨fields, others, hNamed, possible, hPossible, impossible, hImpossible, selected, hSelected,
    values, hValues, hItinerary⟩ := h
  cases hItinerary
  obtain ⟨entries, inner, hInner, rfl, rfl, hNodup, hOthers⟩ := Fields.named?_eq_some hNamed
  obtain ⟨-, hDepth⟩ := Reading.inner?_eq_some hInner
  have hKnown := fun {name} (hName : name ∈ names) => Fields.lookup_known hNamed hName
  obtain ⟨rfl, hFirst⟩ := flag?_eq rfl (hKnown (by decide)) hPossible
  obtain ⟨rfl, hSecond⟩ := flag?_eq rfl (hKnown (by decide)) hImpossible
  obtain ⟨rfl, hThird⟩ := flag?_eq rfl (hKnown (by decide)) hSelected
  have hLookup := fun name => Fields.lookup_values? hNamed hValues name
  obtain ⟨vs, hMembers, rfl⟩ := Option.map_eq_some_iff.mp hValues
  refine ⟨_, rfl, ⟨?_, rfl, hLookup, Members.ordered_sorted vs⟩,
    ⟨Members.ordered_sorted vs, ?_, ?_⟩, ?_⟩
  · rw [feasibility]
    generalize flag? _ "isPossible" = possible
    generalize flag? _ "impossible" = impossible
    cases possible <;> cases impossible <;> rfl
  · exact hDepth ▸ (Tree.fits_members? _ hMembers).sorted
  · -- A name that is looked at has no value among the others, so it is none of theirs.
    intro m hMem hName
    have hNone := hLookup m.1
    rw [if_pos hName, Option.map_none, eq_comm, Option.map_eq_none_iff,
      List.lookup_eq_none_iff] at hNone
    simpa using hNone m hMem
  · -- A name that is looked at stands once, so this is the member that was read as a flag.
    intro name hName t hMem
    obtain ⟨entry, hEntry, hSame⟩ := List.mem_map.mp hMem
    cases hSame
    have hFound := lookup_of_mem hNodup
      (List.mem_filter.mpr ⟨hEntry, List.contains_iff_mem.mpr hName⟩)
    have hLast := (hKnown hName).symm.trans hFound
    simp only [names, List.mem_cons, List.not_mem_nil, or_false] at hName
    rcases hName with hName | hName | hName
    · exact hFirst _ (hName ▸ hLast)
    · exact hSecond _ (hName ▸ hLast)
    · exact hThird _ (hName ▸ hLast)

/-! ## What is written is read again -/

/-- The members of an itinerary that are looked at, as they are written. -/
def marks (i : Itinerary) : Members :=
  [("isPossible", .bool i.isPossible), ("isSelected", .bool i.isSelected)]

theorem value_eq (i : Itinerary) : i.value = .record (i.marks ++ i.others) := rfl

theorem Carried.lookup_others {depth : Nat} (h : i.Carried depth) {name : String}
    (hName : name ∈ names) : i.others.lookup name = none := by
  rw [List.lookup_eq_none_iff]
  refine fun m hMem => bne_iff_ne.mpr ?_
  rintro rfl
  exact h.unreserved m hMem hName

theorem Carried.nodup {depth : Nat} (h : i.Carried depth) :
    ((i.marks ++ i.others).map Prod.fst).Nodup := by
  rw [List.map_append, List.nodup_append]
  refine ⟨show ["isPossible", "isSelected"].Nodup by decide, ?_, ?_⟩
  · exact (List.pairwise_map.mpr h.ordered).imp fun hBefore => ne_of_lt hBefore
  · rintro name hMark _ hOther rfl
    obtain ⟨m, hMem, rfl⟩ := List.mem_map.mp hOther
    have hNames : ∀ name ∈ i.marks.map Prod.fst, name ∈ names := by
      simp [marks, names]
    exact h.unreserved m hMem (hNames _ hMark)

theorem Carried.lookup_marks {depth : Nat} (h : i.Carried depth) {name : String}
    (hName : name ∈ names) : ((Members.trees (i.marks ++ i.others)).filter fun entry =>
      names.contains entry.1).lookup name = (i.marks.lookup name).map Tree.ofValue := by
  rw [lookup_filter, if_pos (List.contains_iff_mem.mpr hName), Members.lookup_trees,
    List.lookup_append, h.lookup_others hName, Option.or_none]

theorem Carried.filter_trees {depth : Nat} (h : i.Carried depth) :
    ((Members.trees (i.marks ++ i.others)).filter fun entry => !names.contains entry.1) =
      i.others.trees := by
  have hMarks : (i.marks.trees.filter fun entry => !names.contains entry.1) = [] := rfl
  have hOthers : (i.others.trees.filter fun entry => !names.contains entry.1) =
      i.others.trees := by
    rw [List.filter_eq_self]
    intro entry hMem
    obtain ⟨m, hMember, rfl⟩ := List.mem_map.mp hMem
    simpa using h.unreserved m hMember
  have hAppend : Members.trees (i.marks ++ i.others) = i.marks.trees ++ i.others.trees :=
    List.map_append
  rw [hAppend, List.filter_append, hMarks, hOthers, List.nil_append]

theorem shape_value (h : i.Carried inner.depth) (hInner : r.inner? = some inner) :
    shape r (.ofValue i.value) = some (Results.unpicked i) := by
  have hNamed : Fields.named? names r (.ofValue (.record (i.marks ++ i.others))) = _ :=
    Fields.named?_ofValue hInner h.nodup
  rw [h.filter_trees] at hNamed
  have hValues : Fields.values? ⟨(Members.trees (i.marks ++ i.others)).filter
      fun entry => names.contains entry.1, false, inner⟩ i.others.trees = some i.others :=
    Fields.values?_trees h.fits h.ordered
  have hPossible := h.lookup_marks (show "isPossible" ∈ names by decide)
  have hImpossible := h.lookup_marks (show "impossible" ∈ names by decide)
  have hSelected := h.lookup_marks (show "isSelected" ∈ names by decide)
  simp only [shape, value_eq, hNamed, Option.bind_eq_bind, Option.bind_some, Fields.optional,
    hPossible, hImpossible, hSelected, hValues]
  rfl

theorem Carried.mono {inner outer : Nat} (hDepth : inner ≤ outer) (h : i.Carried inner) :
    i.Carried outer := ⟨h.ordered, fun m hMem => (h.fits m hMem).mono hDepth, h.unreserved⟩

theorem read?_value (h : i.Carried (Reading.document.depth - 1)) (hLegible : i.value.Legible) :
    Json.read? shape i.value.compact = some (Results.unpicked i) := by
  rw [read?_compact shape hLegible]
  exact shape_value h rfl

theorem unpicked_of_not_isSelected (h : i.isSelected = false) : Results.unpicked i = i := by
  obtain ⟨isPossible, isSelected, others⟩ := i
  cases h
  rfl

/-! ## Answers -/

/-- The items of an answer: what stands under the name of the itineraries, if anything does. -/
def answerItems? : Tree → Option (List Tree)
  | .record members =>
    match Tree.last? members "paths" with
    | some (.list items) => some items
    | some _ => none
    | none => some []
  | .list [] => some []
  | .list (.list items :: _) => some items
  | _ => none

/-- What it takes to read an answer. -/
theorem answerShape_eq_some {t : Tree} {paths : List Itinerary}
    (h : answerShape r t = some paths) : ∃ items, answerItems? t = some items ∧
      List.Forall₂ (fun item i => ∃ inner, inner.depth = r.depth - 2 ∧ shape inner item = some i)
        items paths := by
  obtain ⟨fields, hFields, hPaths⟩ := Option.bind_eq_some_iff.mp h
  obtain ⟨-, hDepth⟩ := Reading.inner?_eq_some (Fields.read?_reading hFields)
  have hItems : ∀ t, fields.known.lookup "paths" = some t → ∃ items, t = .list items ∧
      List.Forall₂ (fun item i => ∃ inner, inner.depth = r.depth - 2 ∧ shape inner item = some i)
        items paths := fun t hMember => by
    rw [Fields.given, hMember] at hPaths
    obtain ⟨items, inner, rfl, hInner, hEach⟩ := Shape.list_eq_some hPaths
    obtain ⟨-, hDepth'⟩ := Reading.inner?_eq_some hInner
    exact ⟨items, rfl, hEach.imp fun _ _ hItem => ⟨inner, by omega, hItem⟩⟩
  have hMissing : fields.known.lookup "paths" = none → paths = [] := fun hNone => by
    rw [Fields.given, hNone] at hPaths
    cases hPaths
    rfl
  rcases Fields.read?_cases hFields with ⟨members, others, rfl, hNamed⟩ | ⟨list, inner, rfl, -, rfl⟩
  · rw [Fields.lookup_known hNamed (by decide)] at hItems hMissing
    rw [answerItems?]
    cases hMember : Tree.last? members "paths" with
    | none =>
      rw [hMissing hMember]
      exact ⟨[], rfl, .nil⟩
    | some t =>
      obtain ⟨items, rfl, hEach⟩ := hItems t hMember
      exact ⟨items, rfl, hEach⟩
  · cases list with
    | nil =>
      rw [hMissing rfl]
      exact ⟨[], rfl, .nil⟩
    | cons t rest =>
      obtain ⟨items, rfl, hEach⟩ := hItems t rfl
      exact ⟨items, rfl, hEach⟩

/-- The itineraries of an answer carry along what they have been read from, without marks. -/
theorem carried_of_answerShape {t : Tree} {paths : List Itinerary}
    (h : answerShape r t = some paths) :
    ∀ i ∈ paths, i.isSelected = false ∧ i.Carried (r.depth - 3) := by
  obtain ⟨items, -, hEach⟩ := answerShape_eq_some h
  refine Shape.forall_mem_of_forall₂ (fun item i hItem => ?_) hEach
  obtain ⟨inner, hInner, hItem⟩ := hItem
  obtain ⟨_, -, hNormal, hCarried, -⟩ := shape_eq_some hItem
  exact ⟨hNormal.isSelected, hCarried.mono (by omega)⟩

theorem read?_answerValue {paths : List Itinerary}
    (h : ∀ i ∈ paths, i.Carried (Reading.document.depth - 3))
    (hLegible : (answerValue paths).Legible) :
    Json.read? answerShape (answerValue paths).compact = some (paths.map Results.unpicked) := by
  have hPaths := Shape.list_ofValue (Reading.within_inner? 1 (by decide)) fun i hMem =>
    shape_value (h i hMem) (Reading.within_inner? 2 (by decide))
  have hFields : Fields.read? ["paths"] .document (.ofValue (answerValue paths)) =
      some ⟨Members.trees [("paths", .list (paths.map value))], false, .within 1⟩ :=
    Fields.read?_ofValue (Reading.within_inner? 0 (by decide)) (List.nodup_singleton _)
      (by simp)
  rw [read?_compact _ hLegible]
  simp only [answerShape, hFields, Option.bind_eq_bind, Option.bind_some, Fields.given,
    Members.lookup_trees, List.lookup_cons_self, Option.map_some, hPaths]

/-! ## Once and for all -/

/-- An itinerary that has been read is read again from its own text. -/
theorem read?_value_of_shape (hDepth : r.depth ≤ Reading.document.depth) {t : Tree}
    (h : shape r t = some i) (hLegible : i.value.Legible) :
    Json.read? shape i.value.compact = some i := by
  obtain ⟨members, -, hNormal, hCarried, -⟩ := shape_eq_some h
  rw [read?_value (hCarried.mono (Nat.sub_le_sub_right hDepth 1)) hLegible,
    unpicked_of_not_isSelected hNormal.isSelected]

/-- **An itinerary is normalised when it is read.** From a record that is accepted it keeps whether
it is possible, no mark, and the other members with their values; its own text is read as the same
itinerary. So are the items of an answer, one by one and in order, and the text of the answer. A
record is refused if one of the three members that are looked at is neither a truth value nor
null. -/
theorem normalization {r : Reading} (hDepth : r.depth ≤ Reading.document.depth) :
    (∀ members i, shape r (.record members) = some i →
      i.Normalizes (r.depth - 1) members ∧
        (i.value.Legible → Json.read? shape i.value.compact = some i)) ∧
    (∀ t paths, answerShape r t = some paths →
      (∃ items, answerItems? t = some items ∧ List.Forall₂ (fun item i =>
        ∃ members, item = .record members ∧ i.Normalizes (r.depth - 3) members ∧
          (i.value.Legible → Json.read? shape i.value.compact = some i)) items paths) ∧
      ((answerValue paths).Legible →
        Json.read? answerShape (answerValue paths).compact = some paths)) ∧
    ∀ members name t, name ∈ names → (some name, t) ∈ members → t ≠ .null →
      (∀ b, t ≠ .bool b) → shape r (.record members) = none := by
  refine ⟨fun members i h => ?_, fun t paths h => ?_,
    fun members name t hName hMem hNull hBool => ?_⟩
  · obtain ⟨_, hRecord, hNormal, -, -⟩ := shape_eq_some h
    cases hRecord
    exact ⟨hNormal, read?_value_of_shape hDepth h⟩
  · obtain ⟨items, hItems, hEach⟩ := answerShape_eq_some h
    refine ⟨⟨items, hItems, hEach.imp fun item i hItem => ?_⟩, fun hLegible => ?_⟩
    · obtain ⟨inner, hInner, hItem⟩ := hItem
      obtain ⟨members, rfl, hNormal, -, -⟩ := shape_eq_some hItem
      rw [hInner] at hNormal
      exact ⟨members, rfl, hNormal, read?_value_of_shape (by omega) hItem⟩
    · have hPaths := carried_of_answerShape h
      rw [read?_answerValue (fun i hMem => (hPaths i hMem).2.mono (by omega)) hLegible]
      congr 1
      refine (List.map_congr_left fun i hMem => ?_).trans (List.map_id paths)
      exact unpicked_of_not_isSelected (hPaths i hMem).1
  · cases hShape : shape r (.record members) with
    | none => rfl
    | some i =>
      obtain ⟨_, hRecord, -, -, hFlags⟩ := shape_eq_some hShape
      cases hRecord
      rcases hFlags name hName t hMem with rfl | ⟨b, rfl⟩
      · exact absurd rfl hNull
      · exact absurd rfl (hBool b)

/-- A record of an itinerary that is said to be impossible and picked. -/
def usualRecord : List (Option String × Tree) :=
  [(some "fare", .number (some (.integer 5))), (some "impossible", .bool true),
    (some "isSelected", .bool true), (some "isPossible", .null)]

/-- What is kept of it. -/
def usualItinerary : Itinerary := ⟨false, false, [("fare", .number (.integer 5))]⟩

theorem normalization_usual :
    shape .document (.record usualRecord) = some usualItinerary ∧
      usualItinerary.Normalizes 126 usualRecord ∧
      Json.read? shape usualItinerary.value.compact = some usualItinerary ∧
      answerShape .document (.record [(some "paths", .list [.record usualRecord])]) =
        some [usualItinerary] ∧
      Json.read? answerShape (answerValue [usualItinerary]).compact = some [usualItinerary] ∧
      shape .document (.record ((some "isPossible", .number none) :: usualRecord)) = none := by
  have hRead : shape .document (.record usualRecord) = some usualItinerary := rfl
  have hAnswer : answerShape .document (.record [(some "paths", .list [.record usualRecord])]) =
    some [usualItinerary] := rfl
  have hFive : (Number.integer 5).Legible := Number.legible_integer (by decide) (by decide)
  have hLegible : usualItinerary.value.Legible := List.forall_mem_singleton.mpr hFive
  have hAnswerLegible : (answerValue [usualItinerary]).Legible :=
    List.forall_mem_singleton.mpr hFive
  obtain ⟨hOne, hAll, hRefused⟩ := normalization (le_refl Reading.document.depth)
  obtain ⟨hNormal, hAgain⟩ := hOne usualRecord usualItinerary hRead
  exact ⟨hRead, hNormal, hAgain hLegible, hAnswer, (hAll _ _ hAnswer).2 hAnswerLegible,
    hRefused _ "isPossible" (.number none) (by decide) List.mem_cons_self nofun nofun⟩

end Itinerary

end TripPlanner
