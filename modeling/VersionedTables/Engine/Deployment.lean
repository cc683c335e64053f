import VersionedTables.Engine.Operation

/-!
# Engines that share stores

Several engines may work on the same columns, schemas, counters or rows, each with settings and an
authority of its own. What one engine writes to a store, the others that share the store see.

* **`Deployment`** — the engines and the stores.
* **`Deployment.start`** — adds an engine.
* **`Deployment.engine?`**, **`Deployment.replace`** — an engine with what its stores hold, and the
  deployment when the engine has changed.
* **`Deployment.perform`** — one request to one of the engines.
-/

namespace VersionedTables

/-- The stores that an engine works on, each by its number. -/
structure StorePlaces where
  catalog : Nat
  bindings : Nat
  counters : Nat
  log : Nat
deriving DecidableEq

/-- What an engine has of its own. -/
structure Seat where
  settings : Settings
  authority : Authority
  places : StorePlaces
deriving DecidableEq

/-- Engines and the stores that they work on. A store that nothing was written to is empty. -/
structure Deployment where
  seats : List Seat := []
  catalogs : SortedMap Nat Catalog := ∅
  bindings : SortedMap Nat Bindings := ∅
  counters : SortedMap Nat Counters := ∅
  logs : SortedMap Nat RowLog := ∅
deriving DecidableEq

namespace Deployment

/-- An engine with what its stores hold. -/
def view (d : Deployment) (s : Seat) : Engine where
  settings := s.settings
  authority := s.authority
  catalog := (d.catalogs.get? s.places.catalog).getD ∅
  bindings := (d.bindings.get? s.places.bindings).getD ∅
  ledger :=
    { log := (d.logs.get? s.places.log).getD ∅
      counters := (d.counters.get? s.places.counters).getD ∅ }

def engine? (d : Deployment) (i : Nat) : Option Engine := d.seats[i]?.map d.view

/-- The deployment when what an engine's stores hold is that of `e`. -/
def store (d : Deployment) (s : Seat) (e : Engine) : Deployment :=
  { d with
    catalogs := d.catalogs.insert s.places.catalog e.catalog
    bindings := d.bindings.insert s.places.bindings e.bindings
    counters := d.counters.insert s.places.counters e.ledger.counters
    logs := d.logs.insert s.places.log e.ledger.log }

/-- The deployment when the engine of a number is `e`. -/
def replace (d : Deployment) (i : Nat) (e : Engine) : Deployment :=
  match d.seats[i]? with
  | none => d
  | some s =>
      let seat := { s with settings := e.settings, authority := e.authority }
      { d.store s e with seats := d.seats.set i seat }

def start (d : Deployment) (settings : Settings) (authority : Authority) (places : StorePlaces) :
    Deployment :=
  { d with seats := d.seats ++ [⟨settings, authority, places⟩] }

/-- One request to the engine of a number, if there is one: what is answered, and the deployment
behind it. -/
def perform (d : Deployment) (i : Nat) (r : Request) :
    Option (Except Error Answer × Deployment) :=
  (d.engine? i).map fun e =>
    let (answer, e) := e.perform r
    (answer, d.replace i e)

end Deployment

end VersionedTables
