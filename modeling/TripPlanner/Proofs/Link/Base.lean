import TripPlanner.Link
import Mathlib.Data.List.DropRight

/-!
# Links on links

A link takes the place of whatever query and fragment its base had, so putting a query on a link
is putting it on the base of that link (`link_link`). The query of a link does not depend on the
base at all (`query_link`).
-/

namespace TripPlanner

namespace Url

theorem Path.trimmed_trimmed (p : Path) : p.trimmed.trimmed = p.trimmed := by
  cases p with
  | segments items => rfl
  | bare text => exact congrArg Path.bare (List.rdropWhile_idempotent (· = ' ') text)

theorem withPairs_withPairs (u : Url) (ps qs : List (List Char × List Char)) :
    (u.withPairs ps).withPairs qs = u.withPairs qs := by
  simp only [withPairs, Path.trimmed_trimmed]

end Url

namespace LinkFormat

/-- A link on a link is a link on its base. -/
theorem link_link (f : LinkFormat) (base : Url) (q r : Query) :
    f.link (f.link base q) r = f.link base r :=
  Url.withPairs_withPairs _ _ _

theorem query_link (f : LinkFormat) (base base' : Url) (q : Query) :
    (f.link base q).query = (f.link base' q).query := rfl

end LinkFormat

end TripPlanner
