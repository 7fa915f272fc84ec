import TripPlanner.Link

/-!
# The address bar

The address bar shows the link of the query on the page of the planner. It is overwritten in place
whenever the link is another, also while the query is not complete.
-/

namespace TripPlanner

/-- The location that is shown, and how often it has been replaced. -/
structure AddressBar where
  location : Url
  replaced : Nat := 0
  deriving DecidableEq

namespace AddressBar

/-- The address bar with the link of a query. -/
def sync (bar : AddressBar) (format : LinkFormat) (q : Query) : AddressBar :=
  let link := format.link bar.location q
  if link = bar.location then bar else ⟨link, bar.replaced + 1⟩

end AddressBar

end TripPlanner
