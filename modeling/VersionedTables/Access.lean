import VersionedTables.Identifiers

/-!
# Callers and their access

Nothing is decided here about who a caller is: every operation is told. What a caller may do with a
table is decided by an authority.

* **`Caller`** — the identity that comes with an operation.
* **`AccessMode`** — what a caller may want of a table.
* **`Authority`** — grants, or leave for everyone who is logged in.
* **`Authority.allows`** — the decision.
-/

namespace VersionedTables

/-- The identity that comes with an operation. -/
structure Caller where
  userId : UserId
  anonymous : Bool := false
  admin : Bool := false
deriving DecidableEq

namespace Caller

def user (id : UserId) : Caller := { userId := id }

/-- A caller who is not logged in. -/
def guest : Caller := { userId := 0, anonymous := true }

def administrator (id : UserId) : Caller := { userId := id, admin := true }

def fieldNames : List String := ["user_id", "anonymous", "admin"]

/-- A caller is written in full; a truth value that is missing from a document is false. -/
instance : JsonFormat Caller where
  write c := .record (fieldNames.zip [.word c.userId, .bool c.anonymous, .bool c.admin])
  read? v := do
    let [userId, anonymous, admin] ← v.slots? fieldNames | none
    return ⟨← userId.required?, ← anonymous.orElse? false, ← admin.orElse? false⟩

end Caller

/-- What a caller may want of a table. -/
inductive AccessMode where
  | read
  | update
  | create
  | delete
deriving DecidableEq, Repr

namespace AccessMode

def all : List AccessMode := [read, update, create, delete]

def name : AccessMode → String
  | read => "Read"
  | update => "Update"
  | create => "Create"
  | delete => "Delete"

instance : JsonFormat AccessMode where
  write m := .text m.name
  read? := Json.named name all

end AccessMode

/-- One kind of access to one table, given to one user. -/
structure Grant where
  user : UserId
  table : TableId
  mode : AccessMode
deriving DecidableEq

/-- Who may do what. -/
structure Authority where
  /-- Whether every caller who is logged in may do everything. -/
  permissive : Bool := false
  /-- The grants, each once. -/
  grants : List Grant := []
deriving DecidableEq

namespace Authority

def grant (a : Authority) (g : Grant) : Authority :=
  { a with grants := if g ∈ a.grants then a.grants else g :: a.grants }

def revoke (a : Authority) (g : Grant) : Authority :=
  { a with grants := a.grants.filter (· ≠ g) }

/-- Whether a caller has access to a table. Administrators always have, and callers who are not
logged in may read at most. -/
def allows (a : Authority) (c : Caller) (table : TableId) (mode : AccessMode) : Bool :=
  c.admin || (!(c.anonymous && mode ≠ .read)
    && (a.permissive || a.grants.contains ⟨c.userId, table, mode⟩))

end Authority

end VersionedTables
