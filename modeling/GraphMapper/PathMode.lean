/-!
# Path modes

Whether the traversals of a plan return what they reach.
-/

namespace GraphMapper

/-- What the traversals of a plan are for. -/
inductive PathMode where
  /-- What they reach is returned. -/
  | fetch
  /-- They only bind names and narrow the matches. -/
  | filterOnly
deriving DecidableEq

/-- A mode in words. -/
def PathMode.text : PathMode → String
  | fetch => "fetch"
  | filterOnly => "filter-only"

end GraphMapper
