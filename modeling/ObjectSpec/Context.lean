import ObjectSpec.Text.Shown
import ObjectSpec.Work

/-!
# Build context

Whose spec is built, what for, and who the users are. It is handed to the
constructors that ask for it and never changed.
-/

namespace ObjectSpec

structure Context where
  owner : Urn := .anonymous
  work : Work := .none
  /-- The directory of users, if there is one. -/
  users : Option (List Urn) := none
deriving DecidableEq

namespace Context

/-- Whether the directory holds an identity; unknown without a directory. -/
def knows? (c : Context) (u : Urn) : Option Bool := c.users.map (·.contains u)

/-- The dump of an identity. -/
def shownUrn (u : Urn) : String :=
  Text.shownRecord "Urn"
    [("namespace", Text.shown u.namespaceName), ("specific", Text.shown u.specific)]

/-- The dump of a context while nothing runs. -/
def shown? (c : Context) : Option String :=
  if c.work.isNone then
    some (Text.shownRecord "BuildContext" [("owner", shownUrn c.owner), ("work", "None"),
      ("users", Text.shownBool c.users.isSome)])
  else none

end Context

end ObjectSpec
