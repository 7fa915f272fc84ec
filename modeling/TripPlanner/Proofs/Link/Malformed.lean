import TripPlanner.Proofs.Link.Settings

/-!
# Malformed values in links

A malformed value of a setting says nothing, but it still takes the place of the values before it.
Where the name of the setting occurs again, what the link says is settled there, and the malformed
value may as well be left out; where it does not, the link says nothing about the setting
(`skipped_iff`). So the value does no harm unless it comes last and something was said before
(`Setting.Unsaid`): there it takes back what the link has said (`unsaid_usual`).
-/

namespace TripPlanner.Link

open Text

theorem values_ne_nil {name : String} {ps : List (String × String)}
    (h : name ∈ ps.map Prod.fst) : values name ps ≠ [] := by
  obtain ⟨_, hPair, rfl⟩ := List.mem_map.mp h
  exact List.ne_nil_of_mem (List.mem_filterMap.mpr ⟨_, hPair, if_pos rfl⟩)

namespace Setting

variable {x : Setting} {after : List (String × String)}

theorem put_none_eq_self_iff {e : Edit} : x.put none e = e ↔ x.field e = none := by
  constructor
  · intro h
    rw [← h, field_put_self]
  · intro h
    refine ext_edit (fun y => ?_) (origin_put x _ _) (destination_put x _ _)
      (auxiliaryDistance_put x _ _)
    by_cases hSame : x = y
    · subst hSame
      rw [field_put_self, h]
    · exact field_put_of_ne hSame _ _

/-- Where the name of a setting occurs later, the pairs before do not count. -/
theorem getLast?_values_append (h : x.name ∈ after.map Prod.fst)
    (before : List (String × String)) :
    (values x.name (before ++ after)).getLast? = (values x.name after).getLast? := by
  rw [values_append, List.getLast?_append_of_ne_nil _ (values_ne_nil h)]

theorem last_append_of_notMem (h : x.name ∉ after.map Prod.fst)
    (before : List (String × String)) : x.last (before ++ after) = x.last before := by
  rw [last, last, values_append, values_of_notMem h, List.append_nil]

/-- Something was said about a setting before, and its name does not occur again. -/
def Unsaid (x : Setting) (before after : List (String × String)) : Prop :=
  (x.last before).isSome ∧ x.name ∉ after.map Prod.fst

theorem editOfPairs_insert_of_mem (h : x.name ∈ after.map Prod.fst) (value : String)
    (before : List (String × String)) :
    editOfPairs (before ++ (x.name, value) :: after) = editOfPairs (before ++ after) := by
  refine editOfPairs_congr (fun y => ?_) ?_
  · by_cases hSame : x = y
    · subst hSame
      rw [List.append_cons, getLast?_values_append h, getLast?_values_append h]
    · rw [values_insert fun hName => hSame (name_injective hName)]
  · rw [values_insert x.name_ne_pointName]

/-- A malformed value that comes last leaves nothing said about its setting. -/
theorem editOfPairs_insert_of_notMem {value : String} (hMalformed : x.read value = none)
    (h : x.name ∉ after.map Prod.fst) (before : List (String × String)) :
    editOfPairs (before ++ (x.name, value) :: after) =
      x.put none (editOfPairs (before ++ after)) := by
  have hPoints : values pointName (before ++ (x.name, value) :: after) =
      values pointName (before ++ after) := values_insert x.name_ne_pointName before after
  refine ext_edit (fun y => ?_) ?_ ?_ ?_
  · rw [field_editOfPairs]
    by_cases hSame : x = y
    · subst hSame
      rw [field_put_self, List.append_cons, last_append_of_notMem h, last_concat, if_pos rfl,
        hMalformed]
    · rw [field_put_of_ne hSame, field_editOfPairs, last, last,
        values_insert fun hName => hSame (name_injective hName)]
  · rw [origin_put, editOfPairs, editOfPairs, hPoints]
  · rw [destination_put, editOfPairs, editOfPairs, hPoints]
  · rw [auxiliaryDistance_put, editOfPairs, editOfPairs]

end Setting

/-- **Malformed values are skipped, unless they come last.** A malformed value of a setting, put
anywhere among the pairs of a link, makes no difference if the name of the setting occurs later, and
otherwise leaves nothing said about that setting and all else as it is. So it makes no difference
exactly if nothing is unsaid by it. -/
theorem skipped_iff (x : Setting) {value : String} (hMalformed : x.read value = none)
    (before after : List (String × String)) :
    editOfPairs (before ++ (x.name, value) :: after) =
        (if x.name ∈ after.map Prod.fst then editOfPairs (before ++ after)
          else x.put none (editOfPairs (before ++ after))) ∧
      (editOfPairs (before ++ (x.name, value) :: after) = editOfPairs (before ++ after) ↔
        ¬ x.Unsaid before after) := by
  by_cases hLater : x.name ∈ after.map Prod.fst
  · have hSame := Setting.editOfPairs_insert_of_mem hLater value before
    rw [if_pos hLater]
    exact ⟨hSame, iff_of_true hSame fun hUnsaid => hUnsaid.2 hLater⟩
  · have hGone := Setting.editOfPairs_insert_of_notMem hMalformed hLater before
    rw [if_neg hLater]
    refine ⟨hGone, ?_⟩
    rw [hGone, Setting.put_none_eq_self_iff, Setting.field_editOfPairs,
      Setting.last_append_of_notMem hLater, Setting.Unsaid, not_and_not_right,
      ← Option.not_isSome_iff_eq_none]
    exact ⟨fun hNone hSome => absurd hSome hNone, fun h hSome => hLater (h hSome)⟩

/-- A weight below zero before a proper one. -/
theorem skipped_usual :
    let x := Setting.accessWeight
    x.read "-2" = none ∧
      editOfPairs [(x.name, "-2"), (x.name, "2")] = editOfPairs [(x.name, "2")] := by
  intro x
  have hMalformed : x.read "-2" = none := by decide +kernel
  have hIff := (skipped_iff x hMalformed [] [(x.name, "2")]).2
  exact ⟨hMalformed, hIff.mpr fun hUnsaid => hUnsaid.2 List.mem_cons_self⟩

/-- The same weight after the proper one takes it back. -/
theorem unsaid_usual :
    Setting.accessWeight.read "-2" = none ∧
      edit (ofText "?pt.beta_access_time=2&pt.beta_access_time=-2") ≠
        edit (ofText "?pt.beta_access_time=2") := by
  decide +kernel

end TripPlanner.Link
