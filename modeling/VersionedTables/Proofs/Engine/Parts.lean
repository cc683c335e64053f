import VersionedTables.Engine.Operation
import VersionedTables.Proofs.Outcome

/-!
# The parts of an engine that an operation changes

An operation changes one of the stores of an engine, or none, unless everything is removed.  The settings
and the authority are changed by none.

* **`Operation.changes`** — the stores that an operation can change.
* **`Engine.Within`**, **`Engine.perform_within`** — a request leaves all else as it is.
-/

namespace VersionedTables

inductive Part where
  | catalog
  | bindings
  | ledger

def Operation.changes : Operation → List Part
  | .createColumn _ | .createColumns _ => [.catalog]
  | .bind .. | .changeSchema .. | .unbind _ => [.bindings]
  | .reserve .. | .advance .. | .append .. | .appendUnder .. | .restore _ => [.ledger]
  | .truncate => [.catalog, .bindings, .ledger]
  | _ => []

namespace Engine

/-- The engine `e'` is what `e` is but for some stores. -/
structure Within (parts : List Part) (e e' : Engine) : Prop where
  settings : e'.settings = e.settings
  authority : e'.authority = e.authority
  catalog : .catalog ∉ parts → e'.catalog = e.catalog
  bindings : .bindings ∉ parts → e'.bindings = e.bindings
  ledger : .ledger ∉ parts → e'.ledger = e.ledger

namespace Within

variable {e : Engine} {parts : List Part}

theorem refl (parts : List Part) (e : Engine) : Within parts e e :=
  ⟨rfl, rfl, fun _ => rfl, fun _ => rfl, fun _ => rfl⟩

theorem of_catalog (e : Engine) (catalog : Catalog) : Within [.catalog] e { e with catalog } :=
  ⟨rfl, rfl, fun h => absurd (List.mem_singleton_self _) h, fun _ => rfl, fun _ => rfl⟩

theorem of_bindings (e : Engine) (bindings : Bindings) : Within [.bindings] e { e with bindings } :=
  ⟨rfl, rfl, fun _ => rfl, fun h => absurd (List.mem_singleton_self _) h, fun _ => rfl⟩

theorem of_ledger (e : Engine) (ledger : Ledger) : Within [.ledger] e (e.withLedger ledger) :=
  ⟨rfl, rfl, fun _ => rfl, fun _ => rfl, fun h => absurd (List.mem_singleton_self _) h⟩

theorem settle {α : Type} (answer : α → Answer) {outcome : Except Error (α × Engine)}
    (h : ∀ a e', outcome = .ok (a, e') → Within parts e e') :
    Within parts e (e.settle answer outcome).2 := by
  cases outcome with
  | error error => exact .refl parts e
  | ok p => exact h p.1 p.2 rfl

theorem appendUnder (e : Engine) (millis : UInt64) (caller : Caller) (table : TableId)
    (schema : List Column) (delta : RowSet) :
    Within [.ledger] e (e.appendUnder millis caller table schema delta).2 := by
  unfold Engine.appendUnder
  split
  · exact .refl _ e
  · exact .of_ledger e _

theorem append (e : Engine) (millis : UInt64) (caller : Caller) (table : TableId) (delta : RowSet) :
    Within [.ledger] e (e.append millis caller table delta).2 := by
  unfold Engine.append
  split
  · exact .refl _ e
  · exact .appendUnder e millis caller table _ delta

end Within

/-- **A request changes only the stores that its operation can change.** -/
theorem perform_within (e : Engine) (r : Request) : Within r.operation.changes e (e.perform r).2 := by
  unfold perform
  cases r.operation with
  | createColumn spec =>
      refine .settle _ (fun column e' h => ?_)
      obtain ⟨⟨⟩, -, h⟩ := Outcome.bind_eq_ok_iff.1 h
      obtain ⟨column', -, he⟩ := Outcome.bind_eq_ok_iff.1 h
      cases he
      exact .of_catalog e _
  | createColumns specs =>
      refine .settle _ (fun columns e' h => ?_)
      obtain ⟨⟨⟩, -, h⟩ := Outcome.bind_eq_ok_iff.1 h
      obtain ⟨columns', -, he⟩ := Outcome.bind_eq_ok_iff.1 h
      cases he
      exact .of_catalog e _
  | bind table ids expected =>
      refine .settle _ (fun changed e' h => ?_)
      obtain ⟨⟨⟩, -, h⟩ := Outcome.bind_eq_ok_iff.1 h
      obtain ⟨⟨changed', bindings⟩, -, he⟩ := Outcome.bind_eq_ok_iff.1 h
      cases he
      exact .of_bindings e bindings
  | changeSchema table changes expected =>
      refine .settle _ (fun binding e' h => ?_)
      obtain ⟨⟨⟩, -, h⟩ := Outcome.bind_eq_ok_iff.1 h
      obtain ⟨⟨binding', bindings⟩, -, he⟩ := Outcome.bind_eq_ok_iff.1 h
      cases he
      exact .of_bindings e bindings
  | unbind table => exact .of_bindings e _
  | reserve | advance | restore => exact .of_ledger e _
  | append table delta => exact .append e r.millis r.caller table delta
  | appendUnder table schema delta => exact .appendUnder e r.millis r.caller table schema delta
  | truncate =>
      refine .settle _ (fun a e' h => ?_)
      obtain ⟨e'', he, h⟩ := Outcome.map_eq_ok_iff.1 h
      cases h
      unfold truncate at he
      split at he
      · cases he
        exact ⟨rfl, rfl, fun h => absurd List.mem_cons_self h,
          fun h => absurd (List.mem_cons_of_mem _ List.mem_cons_self) h,
          fun h => absurd (List.mem_cons_of_mem _ (List.mem_cons_of_mem _ List.mem_cons_self)) h⟩
      · cases he
  | column | columns | listColumns | tableColumns | currentColumns | binding | schema
  | calculate | details | checkSchema | boundObjects | counter | rowSet | change | history
  | latest | replay | exportTable => exact .refl _ e

end Engine

end VersionedTables
