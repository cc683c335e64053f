import VersionedTables.Proofs.Engine.Revisions
import VersionedTables.Proofs.Log.Local
import VersionedTables.Proofs.Schema.Stamps

/-!
# Tables are kept apart

What is asked for a table, be it granted, refused or broken off on the way, leaves the columns and all
other tables as they are, and depends on nothing that the engine holds of them.  So two requests for
different tables may be made in either order.  They bring stamps along, and where other stamps are brought
along the answers and the engine differ in these stamps and in nothing else.

* **`Operation.addressee?`** — the table that an operation is for, if it is for one.
* **`Engine.holding`** — what an engine holds of a table.
* **`Engine.perform_local`** — a request for a table is an action on this table.
* **`Engine.Interchanged`** — two requests may be made in either order.
* **`Engine.Reachable.tables_isolated`** — tables are kept apart.
-/

namespace VersionedTables

/-- The table that an operation is for, if it may change something for one.  A backup is for the table
that its first chunk names. -/
def Operation.addressee? : Operation → Option TableId
  | .reserve table _ | .advance table _ _ | .append table _ | .appendUnder table _ _
  | .bind table _ _ | .changeSchema table _ _ | .unbind table => some table
  | .restore chunks => chunks.head?.map (·.table)
  | _ => none

/-- What an engine holds of a table, and what it holds for all of them. -/
structure Holding where
  settings : Settings
  authority : Authority
  catalog : Catalog
  rows : Option (SortedMap Version LogEntry) × Option Counter
  binding : Option BindingRecord

def Holding.restamp (ρ : Etag → Etag) (h : Holding) : Holding :=
  { h with binding := h.binding.map (BindingRecord.restamp ρ) }

theorem Holding.restamp_id (h : Holding) : h.restamp id = h := by
  obtain ⟨settings, authority, catalog, rows, binding⟩ := h
  cases binding with
  | none => rfl
  | some r => rfl

namespace Engine

def holding (e : Engine) (table : TableId) : Holding :=
  ⟨e.settings, e.authority, e.catalog, e.ledger.share table, e.bindings.get? table⟩

section

variable {e e' : Engine} {table : TableId}

theorem settings_of_holding (h : e'.holding table = e.holding table) : e'.settings = e.settings :=
  congrArg Holding.settings h

theorem initial_of_holding (h : e'.holding table = e.holding table) : e'.initial = e.initial :=
  congrArg Counter.ofSettings (settings_of_holding h)

theorem authority_of_holding (h : e'.holding table = e.holding table) :
    e'.authority = e.authority := congrArg Holding.authority h

theorem catalog_of_holding (h : e'.holding table = e.holding table) : e'.catalog = e.catalog :=
  congrArg Holding.catalog h

theorem share_of_holding (h : e'.holding table = e.holding table) :
    e'.ledger.share table = e.ledger.share table := congrArg Holding.rows h

theorem binding_of_holding (h : e'.holding table = e.holding table) :
    e'.bindings.get? table = e.bindings.get? table := congrArg Holding.binding h

/-- An engine is what it holds of all tables. -/
theorem ext_holding (h : ∀ t, e'.holding t = e.holding t) : e' = e := by
  obtain ⟨settings, authority, catalog, bindings, ⟨log, counters⟩⟩ := e
  obtain ⟨settings', authority', catalog', bindings', ⟨log', counters'⟩⟩ := e'
  obtain rfl : settings' = settings := settings_of_holding (h default)
  obtain rfl : authority' = authority := authority_of_holding (h default)
  obtain rfl : catalog' = catalog := catalog_of_holding (h default)
  obtain rfl : bindings' = bindings := SortedMap.ext_get? (fun t => binding_of_holding (h t))
  obtain rfl : log' = log :=
    SortedMap.ext_get? (fun t => congrArg Prod.fst (share_of_holding (h t)))
  obtain rfl : counters' = counters :=
    SortedMap.ext_get? (fun t => congrArg Prod.snd (share_of_holding (h t)))
  rfl

theorem requireAccess_of_holding (h : e'.holding table = e.holding table) (caller : Caller)
    (mode : AccessMode) :
    e'.requireAccess caller table mode = e.requireAccess caller table mode := by
  rw [requireAccess, requireAccess, authority_of_holding h]

end

/-! ### Rows -/

/-- What is done to the ledger for a table is done to the engine for the table. -/
theorem local_of_ledger {α : Type} {table : TableId} {f : Counter → Ledger → α × Ledger}
    (h : ∀ initial, Local Ledger.share table (f initial)) :
    Local holding table
      (fun e => ((f e.initial e.ledger).1, e.withLedger (f e.initial e.ledger).2)) := by
  refine Local.read (q := fun e : Engine => e.initial)
    (f := fun initial e => ((f initial e.ledger).1, e.withLedger (f initial e.ledger).2))
    (fun _ _ heq => initial_of_holding heq) ?_
  intro initial
  constructor
  · intro e t ht
    show Holding.mk _ _ _ ((f initial e.ledger).2.share t) _ = Holding.mk _ _ _ (e.ledger.share t) _
    rw [(h initial).frame e.ledger t ht]
    rfl
  · intro e e' heq
    obtain ⟨hanswer, hshare⟩ := (h initial).same e.ledger e'.ledger (share_of_holding heq)
    refine ⟨hanswer, ?_⟩
    show Holding.mk e'.settings e'.authority e'.catalog ((f initial e'.ledger).2.share table)
        (e'.bindings.get? table) =
      Holding.mk e.settings e.authority e.catalog ((f initial e.ledger).2.share table)
        (e.bindings.get? table)
    rw [settings_of_holding heq, authority_of_holding heq, catalog_of_holding heq, hshare,
      binding_of_holding heq]

/-- Access is checked, and then the row set is handed to the ledger. -/
theorem appendUnder_eq_andThen (millis : UInt64) (caller : Caller) (table : TableId)
    (schema : List Column) (delta : RowSet) :
    (fun e => appendUnder e millis caller table schema delta) =
      Action.andThen (Action.query fun e => e.requireAccess caller table .update)
        (fun _ e => ((e.ledger.append e.initial caller.userId millis table schema delta).1,
          e.withLedger
            (e.ledger.append e.initial caller.userId millis table schema delta).2)) := by
  funext e
  unfold appendUnder Action.andThen Action.query
  dsimp only
  cases e.requireAccess caller table .update with
  | error error => rfl
  | ok u => rfl

theorem appendUnder_local (millis : UInt64) (caller : Caller) (table : TableId)
    (schema : List Column) (delta : RowSet) :
    Local holding table (fun e => e.appendUnder millis caller table schema delta) := by
  rw [appendUnder_eq_andThen]
  refine .andThen (.query (fun _ _ h => requireAccess_of_holding h caller .update)) ?_
  intro e u _
  exact local_of_ledger
    (fun initial => Ledger.append_local initial caller.userId millis table schema delta)

/-- The columns of the table are looked up, and then the row set is committed under them. -/
theorem append_eq_andThen (millis : UInt64) (caller : Caller) (table : TableId) (delta : RowSet) :
    (fun e => append e millis caller table delta) =
      Action.andThen
        (Action.query fun e => e.requireAccess caller table .update >>= fun _ =>
          Schema.columns e.catalog e.bindings table)
        (fun schema e => e.appendUnder millis caller table schema delta) := by
  funext e
  unfold append Action.andThen Action.query
  dsimp only
  cases e.requireAccess caller table .update >>= fun _ =>
      Schema.columns e.catalog e.bindings table with
  | error error => rfl
  | ok schema => rfl

theorem append_local (millis : UInt64) (caller : Caller) (table : TableId) (delta : RowSet) :
    Local holding table (fun e => e.append millis caller table delta) := by
  rw [append_eq_andThen]
  refine .andThen (.query ?_) (fun _ schema _ => appendUnder_local millis caller table schema delta)
  intro e e' h
  rw [requireAccess_of_holding h, Schema.columns, Schema.columns, catalog_of_holding h,
    Bindings.current_congr (binding_of_holding h)]

/-! ### Schemas -/

/-- A request that is granted or refused as a whole. -/
theorem settle_local {α : Type} {table : TableId} {f : Engine → Except Error (α × Engine)}
    (h : Local holding table (Action.attempt f)) (answer : α → Answer) :
    Local holding table (fun e => e.settle answer (f e)) := by
  have hsteps : (fun e => settle e answer (f e)) =
      fun e => ((Action.attempt f e).1.map answer, (Action.attempt f e).2) := by
    funext e
    unfold settle Action.attempt
    cases f e with
    | error error => rfl
    | ok p => rfl
  rw [hsteps]
  exact h.map (Except.map answer)

section

variable {ρ : Etag → Etag} {e e' : Engine} {table : TableId}

theorem holding_withBindings {bs bs' : Bindings} (h : e'.holding table = e.holding table)
    (hbindings : Bindings.Restamped ρ table bs bs') :
    holding { e' with bindings := bs' } table =
      (holding { e with bindings := bs } table).restamp ρ := by
  show Holding.mk e'.settings e'.authority e'.catalog (e'.ledger.share table) (bs'.get? table) =
    Holding.mk e.settings e.authority e.catalog (e.ledger.share table)
      ((bs.get? table).map (BindingRecord.restamp ρ))
  rw [settings_of_holding h, authority_of_holding h, catalog_of_holding h, share_of_holding h,
    hbindings.record]

/-- A schema is refused or bound under the stamp that is brought along. -/
theorem bind_restamped (h : e'.holding table = e.holding table)
    (hρ : ρ (e.bindings.current table).etag = (e.bindings.current table).etag) (fresh : Etag)
    (caller : Caller) (ids : List ColumnId) (expected : Option Etag) :
    Outcome.Agree
      (fun p p' => p'.1 = p.1 ∧ p'.2.holding table = (p.2.holding table).restamp ρ)
      (e.bind fresh caller table ids expected) (e'.bind (ρ fresh) caller table ids expected) := by
  have hschema : Outcome.Agree (fun p p' => p'.1 = p.1 ∧ Bindings.Restamped ρ table p.2 p'.2)
      (Schema.bind e.settings e.catalog fresh e.bindings table ids expected)
      (Schema.bind e'.settings e'.catalog (ρ fresh) e'.bindings table ids expected) := by
    rw [settings_of_holding h, catalog_of_holding h]
    exact Schema.bind_restamped _ _ fresh ids expected (binding_of_holding h) hρ
  unfold Engine.bind
  rw [requireAccess_of_holding h]
  refine .bind _ (fun _ => hschema.andThen ?_)
  intro p p' hp
  exact .ok ⟨hp.1, holding_withBindings h hp.2⟩

theorem changeSchema_restamped (h : e'.holding table = e.holding table)
    (hρ : ρ (e.bindings.current table).etag = (e.bindings.current table).etag) (fresh : Etag)
    (caller : Caller) (changes : List SchemaChange) (expected : Option Etag) :
    Outcome.Agree
      (fun p p' => p'.1 = p.1.restamp ρ ∧ p'.2.holding table = (p.2.holding table).restamp ρ)
      (e.changeSchema fresh caller table changes expected)
      (e'.changeSchema (ρ fresh) caller table changes expected) := by
  have hschema : Outcome.Agree
      (fun p p' => p'.1 = p.1.restamp ρ ∧ Bindings.Restamped ρ table p.2 p'.2)
      (Schema.applyChanges e.settings e.catalog fresh e.bindings table changes expected)
      (Schema.applyChanges e'.settings e'.catalog (ρ fresh) e'.bindings table changes expected) := by
    rw [settings_of_holding h, catalog_of_holding h]
    exact Schema.applyChanges_restamped _ _ fresh changes expected (binding_of_holding h) hρ
  unfold Engine.changeSchema
  rw [requireAccess_of_holding h]
  refine .bind _ (fun _ => hschema.andThen ?_)
  intro p p' hp
  exact .ok ⟨hp.1, holding_withBindings h hp.2⟩

/-- A new schema of a table is nothing that other tables hold. -/
theorem holding_of_bind {settings : Settings} {catalog : Catalog} {fresh : Etag}
    {ids : List ColumnId} {expected : Option Etag} {changed : Bool} {bs : Bindings}
    (h : Schema.bind settings catalog fresh e.bindings table ids expected = .ok (changed, bs))
    {t : TableId} (ht : t ≠ table) : holding { e with bindings := bs } t = e.holding t := by
  have hget : bs.get? t = e.bindings.get? t := by
    have hcases := (Schema.bind_eq_ok_iff.1 h).2
    split at hcases
    · rw [hcases.2]
    · rw [hcases.2]
      exact SortedMap.get?_insert_of_ne _ _ ht
  show Holding.mk _ _ _ _ (bs.get? t) = Holding.mk _ _ _ _ (e.bindings.get? t)
  rw [hget]

end

theorem bind_local (fresh : Etag) (caller : Caller) (table : TableId) (ids : List ColumnId)
    (expected : Option Etag) :
    Local holding table (Action.attempt fun e => e.bind fresh caller table ids expected) := by
  refine .attempt ?_ ?_
  · intro e changed e' h t ht
    obtain ⟨⟨⟩, -, h⟩ := Outcome.bind_eq_ok_iff.1 h
    obtain ⟨⟨changed', bs⟩, hbind, h⟩ := Outcome.bind_eq_ok_iff.1 h
    cases h
    exact holding_of_bind hbind ht
  · intro e e' h
    have hagree := bind_restamped (ρ := id) h rfl fresh caller ids expected
    simpa only [Holding.restamp_id, id_eq] using hagree

theorem changeSchema_local (fresh : Etag) (caller : Caller) (table : TableId)
    (changes : List SchemaChange) (expected : Option Etag) :
    Local holding table
      (Action.attempt fun e => e.changeSchema fresh caller table changes expected) := by
  refine .attempt ?_ ?_
  · intro e binding e' h t ht
    obtain ⟨⟨⟩, -, h⟩ := Outcome.bind_eq_ok_iff.1 h
    obtain ⟨⟨binding', bs⟩, happly, h⟩ := Outcome.bind_eq_ok_iff.1 h
    cases h
    obtain ⟨-, ids, changed, -, hbind, -⟩ := Schema.applyChanges_eq_ok_iff.1 happly
    exact holding_of_bind hbind ht
  · intro e e' h
    have hagree := changeSchema_restamped (ρ := id) h rfl fresh caller changes expected
    simpa only [Holding.restamp_id, Binding.restamp_id, id_eq] using hagree

theorem unbind_local (table : TableId) :
    Local holding table (fun e => ((.ok .done : Except Error Answer), e.unbind table)) := by
  constructor
  · intro e t ht
    show Holding.mk _ _ _ _ (SortedMap.get? (e.bindings.erase table) t) =
      Holding.mk _ _ _ _ (e.bindings.get? t)
    rw [SortedMap.get?_erase, if_neg ht]
    rfl
  · intro e e' h
    refine ⟨rfl, ?_⟩
    show Holding.mk e'.settings e'.authority e'.catalog (e'.ledger.share table)
        (SortedMap.get? (e'.bindings.erase table) table) =
      Holding.mk e.settings e.authority e.catalog (e.ledger.share table)
        (SortedMap.get? (e.bindings.erase table) table)
    rw [SortedMap.get?_erase, SortedMap.get?_erase, if_pos rfl, if_pos rfl, settings_of_holding h,
      authority_of_holding h, catalog_of_holding h, share_of_holding h]

/-- **A request for a table is an action on this table.** -/
theorem perform_local {r : Request} {table : TableId}
    (hr : r.operation.addressee? = some table) : Local holding table (fun e => e.perform r) := by
  obtain ⟨caller, fresh, millis, operation⟩ := r
  cases operation with
  | reserve t count =>
      cases hr
      exact (local_of_ledger (fun initial => Ledger.reserve_local initial table count.toNat)).map
        (Except.map Answer.reservation)
  | advance t rowId version =>
      cases hr
      exact (local_of_ledger (fun initial => Ledger.advance_local initial table rowId version)).map
        (fun counter => (.ok (.counter counter) : Except Error Answer))
  | append t delta =>
      cases hr
      exact (append_local millis caller table delta).map (Except.map Answer.references)
  | appendUnder t schema delta =>
      cases hr
      exact (appendUnder_local millis caller table schema delta).map (Except.map Answer.references)
  | bind t ids expected =>
      cases hr
      exact settle_local (bind_local fresh caller table ids expected) Answer.changed
  | changeSchema t changes expected =>
      cases hr
      exact settle_local (changeSchema_local fresh caller table changes expected) Answer.binding
  | unbind t =>
      cases hr
      exact unbind_local table
  | restore chunks =>
      cases chunks with
      | nil => cases hr
      | cons c cs =>
          cases hr
          exact (local_of_ledger (fun initial => BackupChunk.restore_local initial c cs)).map
            (Except.map Answer.summary)
  | _ => cases hr

end Engine

/-! ### Other stamps -/

def Answer.restamp (ρ : Etag → Etag) : Answer → Answer
  | .binding b => .binding (b.restamp ρ)
  | answer => answer

def Request.restamp (ρ : Etag → Etag) (r : Request) : Request := { r with fresh := ρ r.fresh }

namespace Engine

def restamp (ρ : Etag → Etag) (e : Engine) : Engine :=
  { e with bindings := e.bindings.mapValues (BindingRecord.restamp ρ) }

theorem holding_restamp (ρ : Etag → Etag) (e : Engine) (table : TableId) :
    (e.restamp ρ).holding table = (e.holding table).restamp ρ := by
  show Holding.mk _ _ _ _ (SortedMap.get? (e.bindings.mapValues _) table) = _
  rw [SortedMap.get?_mapValues]
  rfl

section

variable {ρ : Etag → Etag} {e : Engine} {table : TableId}

theorem holding_kept (hρ : ρ (e.bindings.current table).etag = (e.bindings.current table).etag) :
    (e.holding table).restamp ρ = e.holding table := by
  show Holding.mk _ _ _ _ ((e.bindings.get? table).map _) = _
  rw [Bindings.map_restamp hρ]
  rfl

/-- A request that makes no schema does the same whatever stamp it brings along. -/
theorem renames_of_unstamped {α : Type} (answer : α → Answer) (f : Engine → Except Error α × Engine)
    (hanswer : ∀ a, (answer a).restamp ρ = answer a)
    (hheld : ((f e).2.holding table).restamp ρ = (f e).2.holding table) :
    Renames holding table (Except.map (Answer.restamp ρ)) (Holding.restamp ρ) e
      (fun e => conclude answer (f e)) (fun e => conclude answer (f e)) := by
  refine ⟨?_, hheld.symm⟩
  show (f e).1.map answer = ((f e).1.map answer).map (Answer.restamp ρ)
  cases (f e).1 with
  | error error => rfl
  | ok a => exact congrArg Except.ok (hanswer a).symm

/-- A request that makes a schema makes the same one under the stamp that it brings along. -/
theorem renames_of_settle {α : Type} {rename : α → α} (answer : α → Answer)
    (hanswer : ∀ a, answer (rename a) = (answer a).restamp ρ)
    (hkept : (e.holding table).restamp ρ = e.holding table)
    {f f' : Engine → Except Error (α × Engine)}
    (h : Outcome.Agree (fun p p' => p'.1 = rename p.1 ∧
      p'.2.holding table = (p.2.holding table).restamp ρ) (f e) (f' e)) :
    Renames holding table (Except.map (Answer.restamp ρ)) (Holding.restamp ρ) e
      (fun e => e.settle answer (f e)) (fun e => e.settle answer (f' e)) := by
  have hsettled : (e.settle answer (f' e)).1 = (e.settle answer (f e)).1.map (Answer.restamp ρ) ∧
      (e.settle answer (f' e)).2.holding table =
        ((e.settle answer (f e)).2.holding table).restamp ρ := by
    generalize f e = outcome at h ⊢
    generalize f' e = outcome' at h ⊢
    cases h with
    | error error => exact ⟨rfl, hkept.symm⟩
    | @ok p p' hp =>
        refine ⟨congrArg Except.ok ?_, hp.2⟩
        rw [hp.1]
        exact hanswer p.1
  exact ⟨hsettled.1, hsettled.2⟩

/-- **A request for a table does the same under the stamp that it brings along.** -/
theorem perform_renames {r : Request} (hr : r.operation.addressee? = some table)
    (hρ : ρ (e.bindings.current table).etag = (e.bindings.current table).etag) :
    Renames holding table (Except.map (Answer.restamp ρ)) (Holding.restamp ρ) e
      (fun e => e.perform r) (fun e => e.perform (r.restamp ρ)) := by
  have hkept := holding_kept hρ
  have hledger : ∀ ledger, ((e.withLedger ledger).holding table).restamp ρ =
      (e.withLedger ledger).holding table := fun ledger => holding_kept hρ
  obtain ⟨caller, fresh, millis, operation⟩ := r
  cases operation with
  | reserve t count =>
      exact renames_of_unstamped .reservation (fun e => e.reserve t count.toNat) (fun _ => rfl)
        (hledger _)
  | advance t rowId version =>
      exact renames_of_unstamped .counter
        (fun e => (.ok (e.advance t rowId version).1, (e.advance t rowId version).2))
        (fun _ => rfl) (hledger _)
  | append t delta =>
      refine renames_of_unstamped .references (fun e => e.append millis caller t delta)
        (fun _ => rfl) (holding_kept ?_)
      rw [(Within.append e millis caller t delta).bindings (by simp)]
      exact hρ
  | appendUnder t schema delta =>
      refine renames_of_unstamped .references
        (fun e => e.appendUnder millis caller t schema delta) (fun _ => rfl) (holding_kept ?_)
      rw [(Within.appendUnder e millis caller t schema delta).bindings (by simp)]
      exact hρ
  | bind t ids expected =>
      cases hr
      exact renames_of_settle .changed (fun _ => rfl) hkept
        (bind_restamped rfl hρ fresh caller ids expected)
  | changeSchema t changes expected =>
      cases hr
      exact renames_of_settle .binding (fun _ => rfl) hkept
        (changeSchema_restamped rfl hρ fresh caller changes expected)
  | unbind t =>
      cases hr
      refine ⟨rfl, ?_⟩
      show Holding.mk _ _ _ _ (SortedMap.get? (e.bindings.erase table) table) =
        Holding.restamp ρ (Holding.mk _ _ _ _ (SortedMap.get? (e.bindings.erase table) table))
      rw [SortedMap.get?_erase, if_pos rfl]
      rfl
  | restore chunks =>
      exact renames_of_unstamped .summary (fun e => e.restore chunks) (fun _ => rfl) (hledger _)
  | _ => cases hr

end

/-! ### Tables are kept apart -/

/-- What is read of a table of `e'` is what is read of it in `e`. -/
structure SameFor (e e' : Engine) (table : TableId) : Prop where
  history : e'.ledger.log.history table = e.ledger.log.history table
  latest : e'.ledger.log.latest? table = e.ledger.log.latest? table
  /-- Whatever version is asked for, the same rows are read or the same error is answered. -/
  rowSet : ∀ version, e'.ledger.log.rowSet table version = e.ledger.log.rowSet table version
  counter : e'.counter table = e.counter table
  binding : e'.bindings.current table = e.bindings.current table
  everBound : e'.bindings.everBound table = e.bindings.everBound table

theorem sameFor_of_holding {e e' : Engine} {table : TableId} (hl : e.ledger.log.Sound)
    (h : e'.holding table = e.holding table) : e.SameFor e' table := by
  have hlog := Ledger.ofTable_of_share (share_of_holding h)
  refine ⟨?_, ?_, hl.rowSet_congr hlog, ?_, Bindings.current_congr (binding_of_holding h),
    Bindings.everBound_congr (binding_of_holding h)⟩
  · rw [RowLog.history, RowLog.history, hlog]
  · rw [RowLog.latest?, RowLog.latest?, hlog]
  · rw [counter, counter, initial_of_holding h, Ledger.current_of_share (share_of_holding h)]

/-- Where the requests `r` and `r'` change places and bring other stamps along, both are answered as they
were and leave the same engine, but for these stamps. -/
structure Interchanged (e : Engine) (ρ : Etag → Etag) (r r' : Request) : Prop where
  first : ((e.perform (r'.restamp ρ)).2.perform (r.restamp ρ)).1 =
    (e.perform r).1.map (Answer.restamp ρ)
  second : (e.perform (r'.restamp ρ)).1 = ((e.perform r).2.perform r').1.map (Answer.restamp ρ)
  engine : ((e.perform (r'.restamp ρ)).2.perform (r.restamp ρ)).2 =
    ((e.perform r).2.perform r').2.restamp ρ

/-- **Requests for different tables may be made in either order.** -/
theorem interchanged {e : Engine} {ρ : Etag → Etag} {r r' : Request} {table table' : TableId}
    (hr : r.operation.addressee? = some table) (hr' : r'.operation.addressee? = some table')
    (hne : table ≠ table')
    (hρ : ∀ t, ρ (e.bindings.current t).etag = (e.bindings.current t).etag) :
    e.Interchanged ρ r r' := by
  obtain ⟨hfirst, hsecond, hholding⟩ := Local.commute hne (perform_local hr)
    (perform_local (r := r.restamp ρ) hr) (perform_local hr')
    (perform_local (r := r'.restamp ρ) hr') (perform_renames hr (hρ table))
    (perform_renames hr' (hρ table')) (fun t => holding_kept (hρ t))
  refine ⟨hfirst, hsecond, ext_holding ?_⟩
  intro t
  rw [holding_restamp]
  exact hholding t

/-- Requests that keep their stamps are answered the same in either order, and leave the same engine. -/
theorem Interchanged.exact {e : Engine} {r r' : Request} (h : e.Interchanged id r r') :
    ((e.perform r').2.perform r).1 = (e.perform r).1 ∧
      (e.perform r').1 = ((e.perform r).2.perform r').1 ∧
      ((e.perform r').2.perform r).2 = ((e.perform r).2.perform r').2 := by
  have hanswer : ∀ outcome : Except Error Answer, outcome.map (Answer.restamp id) = outcome := by
    intro outcome
    cases outcome with
    | error error => rfl
    | ok answer => cases answer <;> rfl
  have hengine : ∀ e : Engine, e.restamp id = e := by
    intro e
    refine ext_holding (fun t => ?_)
    rw [holding_restamp, Holding.restamp_id]
  obtain ⟨hfirst, hsecond, he⟩ := h
  rw [hanswer] at hfirst hsecond
  rw [hengine] at he
  exact ⟨hfirst, hsecond, he⟩

theorem exists_ne_table (table : TableId) : ∃ t : TableId, t ≠ table := by
  by_cases h : table = ⟨.zero⟩
  · subst h
    exact ⟨⟨⟨1⟩⟩, by decide⟩
  · exact ⟨⟨.zero⟩, fun heq => h heq.symm⟩

/-- **Tables are kept apart**: whatever is asked for a table and whatever becomes of it, no column and no
other table changes.  So two requests for different tables may be made in either order: with the same
stamps the answers and the engine are the same, and where they bring other stamps along the answers and
the engine have the other stamps in their place. -/
theorem Reachable.tables_isolated {e : Engine} (h : e.Reachable) {r : Request} {table : TableId}
    (hr : r.operation.addressee? = some table) :
    (e.perform r).2.catalog = e.catalog ∧
    (∀ t, t ≠ table → e.SameFor (e.perform r).2 t) ∧
    ∀ (r' : Request) (table' : TableId), r'.operation.addressee? = some table' → table ≠ table' →
      (((e.perform r').2.perform r).1 = (e.perform r).1 ∧
        (e.perform r').1 = ((e.perform r).2.perform r').1 ∧
        ((e.perform r').2.perform r).2 = ((e.perform r).2.perform r').2) ∧
      ∀ ρ : Etag → Etag, (∀ t, ρ (e.bindings.current t).etag = (e.bindings.current t).etag) →
        e.Interchanged ρ r r' := by
  have hframe : ∀ t, t ≠ table → (e.perform r).2.holding t = e.holding t :=
    fun t ht => (perform_local hr).frame e t ht
  refine ⟨?_, ?_, ?_⟩
  · obtain ⟨t, ht⟩ := exists_ne_table table
    exact catalog_of_holding (hframe t ht)
  · intro t ht
    exact sameFor_of_holding h.sound.log (hframe t ht)
  · intro r' table' hr' hne
    exact ⟨(interchanged hr hr' hne (fun _ => rfl)).exact,
      fun ρ hρ => interchanged hr hr' hne hρ⟩

end Engine

namespace Sample

def annexEntry : BackupEntry :=
  ⟨⟨annex, 1, 1, some 1, some 1, [column.id], 1, 0, ⟨annex, 1⟩⟩,
    ⟨annex, [column.id], [⟨some 1, some 1, [some "x"]⟩]⟩⟩

/-- A backup of the other table that has an entry of the first table in it. -/
def mixture : Request :=
  ⟨.administrator 1, .unbound, 0, .restore [⟨annex, 0, [annexEntry, ⟨change, rows⟩]⟩]⟩

/-- An engine with a column, and no table. -/
def furnished : Engine := (({} : Engine).perform (arrange .unbound (.createColumn number))).2

def furnish : Request := arrange ⟨⟨1⟩⟩ (.bind table [number.id] none)

def exchange (etag : Etag) : Etag := if etag = ⟨⟨1⟩⟩ then ⟨⟨2⟩⟩ else etag

end Sample

namespace Engine

/-- The restoration breaks off at the entry of the first table, and the first table is bound before it or
behind it, under one stamp or another. -/
theorem tables_isolated_mixture :
    Sample.furnished.Reachable ∧ Sample.furnish.operation.addressee? = some Sample.table ∧
    Sample.mixture.operation.addressee? = some Sample.annex ∧
    (Sample.furnished.perform Sample.furnish).1 = .ok (.changed true) ∧
    (Sample.furnished.perform Sample.mixture).1 = .error .foreignEntry ∧
    ((Sample.furnished.perform Sample.mixture).2.ledger.log.history Sample.annex).length = 1 ∧
    Sample.furnished.Interchanged Sample.exchange Sample.furnish Sample.mixture := by
  have hreachable : Sample.furnished.Reachable := .perform _ (.start {} {})
  have hnone : Sample.furnished.bindings = ∅ := by decide +kernel
  have hstamps : ∀ t, Sample.exchange (Sample.furnished.bindings.current t).etag =
      (Sample.furnished.bindings.current t).etag := by
    intro t
    rw [hnone]
    show Sample.exchange .unbound = .unbound
    decide
  obtain ⟨-, -, hothers⟩ := hreachable.tables_isolated (r := Sample.furnish) rfl
  obtain ⟨-, hinterchanged⟩ := hothers Sample.mixture Sample.annex rfl (by decide)
  refine ⟨hreachable, rfl, rfl, by decide +kernel, by decide +kernel, by decide +kernel,
    hinterchanged Sample.exchange hstamps⟩

end Engine

end VersionedTables
