import VersionedTables.Proofs.Engine.Isolation

/-!
# Stamps are names

A stamp is compared with other stamps and shown, and nothing else is done with it.  So where all stamps of
a course are renamed, different ones to different ones, everything is answered as it was, under the new
names.

* **`Renaming`** — other names for stamps.
* **`Engine.transcript`** — what happens to an engine, with what is answered.
* **`Engine.perform_renamed`** — a request under other names.
* **`Engine.transcript_renamed`** — a course under other names.
-/

namespace VersionedTables

/-! ### Other names -/

/-- Other names for stamps. -/
structure Renaming where
  map : Etag → Etag
  injective : Function.Injective map
  unbound : map .unbound = .unbound

namespace Renaming

variable (ρ : Renaming)

/-- An error that shows stamps shows their names. -/
def error : Error → Error
  | .staleEtag table expected actual => .staleEtag table (ρ.map expected) (ρ.map actual)
  | e => e

def outcome {α β : Type} (f : α → β) : Except Error α → Except Error β
  | .ok a => .ok (f a)
  | .error e => .error (ρ.error e)

def operation : Operation → Operation
  | .bind table ids expected => .bind table ids (expected.map ρ.map)
  | .changeSchema table changes expected => .changeSchema table changes (expected.map ρ.map)
  | operation => operation

/-- The same request, with other names for the stamp that it brings along and the one it expects. -/
def request (r : Request) : Request :=
  { r with fresh := ρ.map r.fresh, operation := ρ.operation r.operation }

def event : Event → Event
  | .request r => .request (ρ.request r)
  | .authorize authority => .authorize authority

/-- The same answer under other names.  Only what is answered about the schema of a table shows
stamps. -/
def answer : Event → Except Error Answer → Except Error Answer
  | .request ⟨_, _, _, .binding _⟩, outcome
  | .request ⟨_, _, _, .bind _ _ _⟩, outcome
  | .request ⟨_, _, _, .changeSchema _ _ _⟩, outcome => ρ.outcome (Answer.restamp ρ.map) outcome
  | _, outcome => outcome

/-- Other names do not change what is granted. -/
theorem isOk_answer (v : Event) (x : Except Error Answer) : (ρ.answer v x).isOk = x.isOk := by
  unfold answer
  split
  · cases x <;> rfl
  · cases x <;> rfl
  · cases x <;> rfl
  · rfl

/-! ### Outcomes under other names -/

section

variable {α β γ δ : Type} {g : γ → δ}

/-- After the same step under other names both go on alike. -/
theorem outcome_bind {f : α → β} {x : Except Error α} {k : α → Except Error γ}
    {k' : β → Except Error δ} (h : ∀ a, k' (f a) = ρ.outcome g (k a)) :
    (ρ.outcome f x >>= k') = ρ.outcome g (x >>= k) := by
  cases x with
  | error e => rfl
  | ok a => exact h a

/-- After a step whose errors show no stamps both go on alike. -/
theorem bind_outcome {x : Except Error α} {k : α → Except Error γ} {k' : α → Except Error δ}
    (hx : Outcome.FailsOnly (fun e => ρ.error e = e) x) (h : ∀ a, k' a = ρ.outcome g (k a)) :
    (x >>= k') = ρ.outcome g (x >>= k) := by
  cases x with
  | error e => exact congrArg Except.error (hx e rfl).symm
  | ok a => exact h a

end

end Renaming

/-! ### Bindings -/

def Bindings.restamp (ρ : Etag → Etag) (b : Bindings) : Bindings :=
  b.mapValues (BindingRecord.restamp ρ)

namespace Renaming

variable (ρ : Renaming) (b : Bindings) (table : TableId)

theorem current_restamp : (b.restamp ρ.map).current table = (b.current table).restamp ρ.map := by
  unfold Bindings.current Bindings.find? Bindings.restamp
  rw [SortedMap.get?_mapValues]
  cases b.get? table with
  | none =>
      show Binding.empty table = Binding.restamp ρ.map (.empty table)
      exact (Binding.restamp_eq ρ.unbound).symm
  | some r => rfl

theorem everBound_restamp : (b.restamp ρ.map).everBound table = b.everBound table := by
  unfold Bindings.everBound Bindings.restamp
  rw [SortedMap.get?_mapValues]
  cases b.get? table <;> rfl

theorem checkEtag_restamp (expected : Option Etag) :
    (b.restamp ρ.map).checkEtag table (expected.map ρ.map) =
      ρ.outcome id (b.checkEtag table expected) := by
  cases expected with
  | none => rfl
  | some etag =>
      show (if ρ.map etag = ((b.restamp ρ.map).current table).etag then _ else _) = _
      rw [current_restamp, Bindings.checkEtag]
      -- Different stamps have different names, so the names are equal where the stamps are.
      show (if ρ.map etag = ρ.map (b.current table).etag then _ else _) = _
      by_cases h : etag = (b.current table).etag
      · rw [if_pos h, if_pos (congrArg ρ.map h)]
        rfl
      · rw [if_neg h, if_neg (fun hmap => h (ρ.injective hmap))]
        rfl

theorem insert_restamp (r : BindingRecord) :
    (b.restamp ρ.map).insert table (r.restamp ρ.map) =
      Bindings.restamp ρ.map (b.insert table r) := by
  refine SortedMap.ext_get? (fun t => ?_)
  unfold Bindings.restamp
  rw [SortedMap.get?_insert, SortedMap.get?_mapValues, SortedMap.get?_mapValues,
    SortedMap.get?_insert]
  split <;> rfl

theorem erase_restamp :
    (b.restamp ρ.map).erase table = Bindings.restamp ρ.map (b.erase table) := by
  refine SortedMap.ext_get? (fun t => ?_)
  unfold Bindings.restamp
  rw [SortedMap.get?_erase, SortedMap.get?_mapValues, SortedMap.get?_mapValues,
    SortedMap.get?_erase]
  split <;> rfl

theorem boundTo_restamp (ids : List ColumnId) (currentOnly : Bool) :
    (b.restamp ρ.map).boundTo ids currentOnly = b.boundTo ids currentOnly := by
  unfold Bindings.boundTo Bindings.restamp SortedMap.mapValues
  rw [List.filter_map, List.map_map]
  rfl

end Renaming

/-! ### Schemas -/

namespace Renaming

variable (ρ : Renaming)

theorem resolve_unstamped (settings : Settings) (catalog : Catalog) (ids : List ColumnId) :
    Outcome.FailsOnly (fun e => ρ.error e = e) (Capacity.resolve settings catalog ids) := by
  have hcount : ∀ max count,
      Outcome.FailsOnly (fun e => ρ.error e = e) (CapacityRule.checkCount max count) :=
    fun _ _ => .ite (Outcome.failsOnly_error rfl) (Outcome.failsOnly_ok ())
  have hrule : ∀ schema rule,
      Outcome.FailsOnly (fun e => ρ.error e = e) (CapacityRule.check schema rule) := by
    intro schema rule
    cases rule with
    | columnsBelow max => exact hcount max schema.length
    | bytesAtMost max => exact .ite (Outcome.failsOnly_error rfl) (Outcome.failsOnly_ok ())
  unfold Capacity.resolve
  refine .ite (Outcome.failsOnly_ok []) (.bind (hcount _ _) (fun _ => ?_))
  refine .bind (catalog.failsOnly_resolve (fun _ => rfl) ids true) (fun schema => ?_)
  exact .bind (.forM (hrule schema) _) (fun _ => Outcome.failsOnly_ok schema)

theorem checkDistinct_unstamped (ids : List ColumnId) :
    Outcome.FailsOnly (fun e => ρ.error e = e) (Schema.checkDistinct ids) := by
  unfold Schema.checkDistinct
  cases Repeats.first? ids with
  | some id => exact Outcome.failsOnly_error rfl
  | none => exact Outcome.failsOnly_ok ()

theorem applyAll_unstamped (ids : List ColumnId) (changes : List SchemaChange) :
    Outcome.FailsOnly (fun e => ρ.error e = e) (SchemaChange.applyAll ids changes) := by
  have happly : ∀ ids change,
      Outcome.FailsOnly (fun e => ρ.error e = e) (SchemaChange.apply ids change) := by
    intro ids change
    unfold SchemaChange.apply
    split
    · exact .ite (Outcome.failsOnly_ok _) (Outcome.failsOnly_error rfl)
    · exact Outcome.failsOnly_ok _
    · exact Outcome.failsOnly_ok _
    · exact Outcome.failsOnly_error rfl
  unfold SchemaChange.applyAll
  induction changes generalizing ids with
  | nil => exact Outcome.failsOnly_ok ids
  | cons change changes ih => exact (happly ids change).bind ih

theorem bind_renamed (settings : Settings) (catalog : Catalog) (fresh : Etag) (b : Bindings)
    (table : TableId) (ids : List ColumnId) (expected : Option Etag) :
    Schema.bind settings catalog (ρ.map fresh) (b.restamp ρ.map) table ids (expected.map ρ.map) =
      ρ.outcome (fun p => (p.1, p.2.restamp ρ.map))
        (Schema.bind settings catalog fresh b table ids expected) := by
  unfold Schema.bind
  refine ρ.bind_outcome (ρ.checkDistinct_unstamped ids) (fun _ => ?_)
  refine ρ.bind_outcome (ρ.resolve_unstamped settings catalog ids) (fun _ => ?_)
  rw [checkEtag_restamp]
  refine ρ.outcome_bind (fun _ => ?_)
  rw [current_restamp]
  show (if (b.current table).columns = ids then _ else _) = _
  split
  · rfl
  · unfold Bindings.replace
    rw [checkEtag_restamp, everBound_restamp]
    cases b.checkEtag table expected with
    | error e => rfl
    | ok u =>
        show Except.ok (true, (b.restamp ρ.map).insert table _) = Except.ok (true, _)
        rw [← insert_restamp]
        rfl

theorem applyChanges_renamed (settings : Settings) (catalog : Catalog) (fresh : Etag) (b : Bindings)
    (table : TableId) (changes : List SchemaChange) (expected : Option Etag) :
    Schema.applyChanges settings catalog (ρ.map fresh) (b.restamp ρ.map) table changes
        (expected.map ρ.map) =
      ρ.outcome (fun p => (p.1.restamp ρ.map, p.2.restamp ρ.map))
        (Schema.applyChanges settings catalog fresh b table changes expected) := by
  unfold Schema.applyChanges
  rw [checkEtag_restamp, current_restamp]
  refine ρ.outcome_bind (fun _ => ?_)
  refine ρ.bind_outcome (ρ.applyAll_unstamped _ changes) (fun ids => ?_)
  -- The stamp that is expected is the current one, which has been renamed with the binding.
  have hbind := ρ.bind_renamed settings catalog fresh b table ids (some (b.current table).etag)
  refine Eq.trans (congrArg (· >>= _) hbind) (ρ.outcome_bind (fun p => ?_))
  show Except.ok ((p.2.restamp ρ.map).current table, _) = _
  rw [current_restamp]
  rfl

end Renaming

/-! ### Requests -/

namespace Engine

variable (ρ : Renaming) (e : Engine)

/-- A request that is granted or refused as a whole, under other names. -/
theorem settle_outcome {α : Type} {f : α → α} {answer : α → Answer}
    (hanswer : ∀ a, answer (f a) = (answer a).restamp ρ.map) (x : Except Error (α × Engine)) :
    (e.restamp ρ.map).settle answer (ρ.outcome (fun p => (f p.1, p.2.restamp ρ.map)) x) =
      (ρ.outcome (Answer.restamp ρ.map) (e.settle answer x).1,
        (e.settle answer x).2.restamp ρ.map) := by
  cases x with
  | error error => rfl
  | ok p => exact Prod.ext (congrArg Except.ok (hanswer p.1)) rfl

theorem bind_renamed (fresh : Etag) (caller : Caller) (table : TableId) (ids : List ColumnId)
    (expected : Option Etag) :
    (e.restamp ρ.map).bind (ρ.map fresh) caller table ids (expected.map ρ.map) =
      ρ.outcome (fun p => (p.1, p.2.restamp ρ.map)) (e.bind fresh caller table ids expected) := by
  refine ρ.bind_outcome (e.failsOnly_requireAccess rfl) (fun _ => ?_)
  have hschema := ρ.bind_renamed e.settings e.catalog fresh e.bindings table ids expected
  exact (congrArg (· >>= _) hschema).trans (ρ.outcome_bind (fun _ => rfl))

theorem changeSchema_renamed (fresh : Etag) (caller : Caller) (table : TableId)
    (changes : List SchemaChange) (expected : Option Etag) :
    (e.restamp ρ.map).changeSchema (ρ.map fresh) caller table changes (expected.map ρ.map) =
      ρ.outcome (fun p => (p.1.restamp ρ.map, p.2.restamp ρ.map))
        (e.changeSchema fresh caller table changes expected) := by
  refine ρ.bind_outcome (e.failsOnly_requireAccess rfl) (fun _ => ?_)
  have hschema :=
    ρ.applyChanges_renamed e.settings e.catalog fresh e.bindings table changes expected
  exact (congrArg (· >>= _) hschema).trans (ρ.outcome_bind (fun _ => rfl))

theorem columns_restamp (table : TableId) :
    Schema.columns e.catalog (e.restamp ρ.map).bindings table =
      Schema.columns e.catalog e.bindings table := by
  unfold Schema.columns
  rw [show (e.restamp ρ.map).bindings = e.bindings.restamp ρ.map from rfl, ρ.current_restamp]
  rfl

theorem createColumns_restamp (caller : Caller) (specs : List ColumnSpec) :
    (e.restamp ρ.map).createColumns caller specs =
      (e.createColumns caller specs).map (fun p => (p.1, p.2.restamp ρ.map)) :=
  Outcome.bind_map (fun _ => Outcome.bind_map (fun _ => rfl))

theorem createColumn_restamp (caller : Caller) (spec : ColumnSpec) :
    (e.restamp ρ.map).createColumn caller spec =
      (e.createColumn caller spec).map (fun p => (p.1, p.2.restamp ρ.map)) :=
  Outcome.bind_map (fun _ => Outcome.bind_map (fun _ => rfl))

theorem appendUnder_restamp (millis : UInt64) (caller : Caller) (table : TableId)
    (schema : List Column) (delta : RowSet) :
    (e.restamp ρ.map).appendUnder millis caller table schema delta =
      ((e.appendUnder millis caller table schema delta).1,
        (e.appendUnder millis caller table schema delta).2.restamp ρ.map) := by
  have haccess : (e.restamp ρ.map).requireAccess caller table .update =
      e.requireAccess caller table .update := rfl
  unfold appendUnder
  rw [haccess]
  cases e.requireAccess caller table .update <;> rfl

theorem append_restamp (millis : UInt64) (caller : Caller) (table : TableId) (delta : RowSet) :
    (e.restamp ρ.map).append millis caller table delta =
      ((e.append millis caller table delta).1,
        (e.append millis caller table delta).2.restamp ρ.map) := by
  have hschema : ((e.restamp ρ.map).requireAccess caller table .update >>= fun _ =>
      Schema.columns (e.restamp ρ.map).catalog (e.restamp ρ.map).bindings table) =
      (e.requireAccess caller table .update >>= fun _ =>
        Schema.columns e.catalog e.bindings table) :=
    congrArg (e.requireAccess caller table .update >>= ·) (funext fun _ => e.columns_restamp ρ table)
  unfold append
  rw [hschema]
  cases e.requireAccess caller table .update >>= fun _ =>
      Schema.columns e.catalog e.bindings table with
  | error error => rfl
  | ok schema => exact e.appendUnder_restamp ρ millis caller table schema delta

/-- A request that is granted or refused as a whole and shows no stamps. -/
theorem settle_map {α : Type} (answer : α → Answer) (x : Except Error (α × Engine)) :
    (e.restamp ρ.map).settle answer (x.map (fun p => (p.1, p.2.restamp ρ.map))) =
      ((e.settle answer x).1, (e.settle answer x).2.restamp ρ.map) := by
  cases x <;> rfl

/-- **A request does the same under other names.** -/
theorem perform_renamed (r : Request) :
    (e.restamp ρ.map).perform (ρ.request r) =
      (ρ.answer (.request r) (e.perform r).1, (e.perform r).2.restamp ρ.map) := by
  -- Two operations compare stamps; the others that read a binding read its columns only.
  have hcurrent : ∀ table, (e.restamp ρ.map).bindings.current table =
      (e.bindings.current table).restamp ρ.map := ρ.current_restamp e.bindings
  obtain ⟨caller, fresh, millis, operation⟩ := r
  cases operation with
  | bind table ids expected =>
      exact (congrArg (settle _ _) (e.bind_renamed ρ fresh caller table ids expected)).trans
        (e.settle_outcome ρ (f := id) (fun _ => rfl) _)
  | changeSchema table changes expected =>
      exact (congrArg (settle _ _) (e.changeSchema_renamed ρ fresh caller table changes expected)).trans
        (e.settle_outcome ρ (f := Binding.restamp ρ.map) (fun _ => rfl) _)
  | binding table =>
      show (Except.ok (Answer.binding ((e.restamp ρ.map).bindings.current table)), _) = _
      rw [hcurrent]
      rfl
  | schema table =>
      show (Except.ok (Answer.columnIds ((e.restamp ρ.map).bindings.current table).columns), _) = _
      rw [hcurrent]
      rfl
  | calculate table changes =>
      show ((SchemaChange.applyAll ((e.restamp ρ.map).bindings.current table).columns changes).map
        Answer.columnIds, _) = _
      rw [hcurrent]
      rfl
  | createColumn spec =>
      exact (congrArg (settle _ _) (e.createColumn_restamp ρ caller spec)).trans
        (e.settle_map ρ _ _)
  | createColumns specs =>
      exact (congrArg (settle _ _) (e.createColumns_restamp ρ caller specs)).trans
        (e.settle_map ρ _ _)
  | tableColumns table =>
      show (Except.map Answer.columns (e.requireAccess caller table .read >>= fun _ =>
        Schema.columns e.catalog (e.restamp ρ.map).bindings table), _) = _
      rw [columns_restamp]
      rfl
  | currentColumns table ids =>
      show (Except.map Answer.columns (e.requireAccess caller table .read >>= fun _ =>
        Schema.columns e.catalog (e.restamp ρ.map).bindings table >>= _), _) = _
      rw [columns_restamp]
      rfl
  | boundObjects ids currentOnly limit offset =>
      show (Except.map Answer.tablePage (Page.checkLimit e.settings.maxPageSize limit >>= fun _ =>
        .ok (.cut ((e.bindings.restamp ρ.map).boundTo ids currentOnly) limit offset)), _) = _
      rw [ρ.boundTo_restamp]
      rfl
  | unbind table =>
      exact congrArg (fun bindings => ((.ok .done : Except Error Answer),
        ({ e with bindings } : Engine))) (ρ.erase_restamp e.bindings table)
  | append table delta =>
      exact congrArg (conclude Answer.references) (e.append_restamp ρ millis caller table delta)
  | appendUnder table schema delta =>
      exact congrArg (conclude Answer.references)
        (e.appendUnder_restamp ρ millis caller table schema delta)
  | truncate =>
      have htruncate : ((e.restamp ρ.map).truncate caller).map ((), ·) =
          ((e.truncate caller).map ((), ·)).map (fun p => (p.1, p.2.restamp ρ.map)) := by
        unfold truncate
        split <;> rfl
      exact (congrArg (settle _ _) htruncate).trans (e.settle_map ρ _ _)
  | _ => rfl

/-- What happens does the same under other names. -/
theorem handle_renamed (v : Event) :
    (e.restamp ρ.map).handle (ρ.event v) =
      (ρ.answer v (e.handle v).1, (e.handle v).2.restamp ρ.map) := by
  cases v with
  | request r => exact e.perform_renamed ρ r
  | authorize authority => rfl

/-! ### Courses -/

/-- What happens to an engine, each event with what is answered. -/
def transcript (e : Engine) (vs : List Event) : List (Event × Except Error Answer) :=
  vs.zip (e.course vs).1

theorem transcript_cons (v : Event) (vs : List Event) :
    e.transcript (v :: vs) = (v, (e.handle v).1) :: (e.handle v).2.transcript vs := rfl

/-- **A course does the same under other names.** -/
theorem transcript_renamed (vs : List Event) :
    (e.restamp ρ.map).transcript (vs.map ρ.event) =
      (e.transcript vs).map (fun p => (ρ.event p.1, ρ.answer p.1 p.2)) := by
  induction vs generalizing e with
  | nil => rfl
  | cons v vs ih =>
      rw [List.map_cons, transcript_cons, handle_renamed, ih]
      rfl

/-- What is granted in a transcript is granted under other names. -/
theorem granted_renamed (ps : List (Event × Except Error Answer)) :
    (ps.map (fun p => (ρ.event p.1, ρ.answer p.1 p.2))).map (fun p => p.2.isOk) =
      (ps.map (·.2)).map Except.isOk := by
  rw [List.map_map, List.map_map]
  exact List.map_congr_left (fun p _ => ρ.isOk_answer p.1 p.2)

end Engine

end VersionedTables
