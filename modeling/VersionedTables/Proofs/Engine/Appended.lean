import VersionedTables.Proofs.Engine.Reachable
import VersionedTables.Proofs.Log.Allocated

/-!
# What an append can have committed

A change and its rows can have been committed by an append if the change describes the rows, if its bounds
say which row ids were given to new rows, and if no number is the greatest that there is.  There is nothing
else to it: of any such change and rows an engine can be found that commits them.

* **`Change.Appended`** — an engine has committed the rows and recorded the change.
* **`Change.Appendable`** — what can be seen of such a change and its rows.
* **`Change.appended_iff`** — they are the same.
-/

namespace VersionedTables

/-- Some engine has committed the row set `s`, submitted to it under some schema, and recorded it as the
change `c`. -/
inductive Change.Appended (c : Change) (s : RowSet) : Prop
  | intro {e : Engine} (he : e.Reachable) {millis : UInt64} {caller : Caller} {table : TableId}
      {schema : List Column} {delta : RowSet} {references : RowReferences}
      (hok : (e.appendUnder millis caller table schema delta).1 = .ok references)
      (hchange : (e.appendUnder millis caller table schema delta).2.ledger.log.change table
        references.version = .ok c)
      (hrows : (e.appendUnder millis caller table schema delta).2.ledger.log.rowSet table
        references.version = .ok s)

/-- What can be seen of a change and its rows that an append has committed. -/
structure Change.Appendable (c : Change) (s : RowSet) : Prop where
  describes : c.Describes s
  allocates : c.Allocates s
  contentKey : c.contentKey = ⟨c.table, c.version⟩
  version : c.version.toNat < Bounded.greatest
  rowIds : ∀ id ∈ s.rowIds, id.toNat < Bounded.greatest

theorem Change.Appended.appendable {c : Change} {s : RowSet} (h : c.Appended s) :
    c.Appendable s := by
  obtain ⟨he, hok, hchange, hrows⟩ := h
  rename_i e millis caller table schema delta references
  have hl := he.sound
  have hsettled := Engine.appendUnder_submitted hl millis caller table schema delta
  generalize e.appendUnder millis caller table schema delta = settled at hok hchange hrows hsettled
  cases hsettled with
  | denied | unresolved | rejected | exhausted => cases hok
  | committed hs hcommits =>
      have ht := hs.table
      subst ht
      cases hok
      rw [hcommits.references] at hchange hrows
      cases hcommits.change_eq.symm.trans hchange
      cases (hcommits.rowSet_eq hl hs).symm.trans hrows
      have hc := hl.counter delta.table
      refine ⟨hcommits.describes hl hs, hcommits.stamped.allocates hs hc hcommits.reserves _ _, rfl,
        ?_, ?_⟩
      · have hversion := hcommits.reserves.nextVersion_lt
        rwa [← hcommits.reserves.version] at hversion
      · intro id hid
        have hlt := UInt64.lt_iff_toNat_lt.1 (hcommits.stamped.lt_nextRowId hs hc hcommits.reserves hid)
        exact Nat.lt_of_lt_of_le hlt (Bounded.toNat_le_greatest _)

/-! ### An engine that commits what is wanted -/

def Column.ofText (id : ColumnId) : Column := ⟨id, { name := "", type := .largeText }⟩

theorem Column.checkCell_ofText (id : ColumnId) (value : Option String) :
    (Column.ofText id).spec.checkCell value = .ok () := by
  cases value with
  | none => rfl
  | some value => rfl

theorem Column.find?_ofText {ids : List ColumnId} {id : ColumnId} (h : id ∈ ids) :
    (ids.map Column.ofText).find? (·.id = id) = some (Column.ofText id) := by
  induction ids with
  | nil => cases h
  | cons id' ids ih =>
      by_cases he : id' = id
      · rw [he]
        exact List.find?_cons_of_pos (by simp [Column.ofText])
      · rw [List.map_cons, List.find?_cons_of_neg (by simp [Column.ofText, he])]
        exact ih ((List.mem_cons.1 h).resolve_left (fun hid => he hid.symm))

/-- A row set without the stamps of its commit. -/
def RowSet.unstamped (n : RowId) (s : RowSet) : RowSet :=
  { s with rows := s.rows.map (Row.unstamped n) }

theorem Change.Describes.stamped_unstamped {c : Change} {s : RowSet} (h : c.Describes s) (n : RowId) :
    RowSet.Stamped c.version (s.rowIds.filter (n ≤ ·)) (s.unstamped n).rows s.rows :=
  RowSet.stamped_unstamped n (fun r hr => ⟨(h.rows r hr).hasId, (h.rows r hr).stamp⟩)

/-- What was committed can be submitted where the ids below `n` were handed out. -/
theorem Change.Describes.acceptable_unstamped {c : Change} {s : RowSet} (h : c.Describes s) {n : RowId}
    (hvalues : ∀ r ∈ s.rows, ∀ id ∈ r.rowId, n ≤ id → r.isDeletion = false) {last : Option RowId}
    (hlast : ∀ id, id < n → RowId.Allocated last id) :
    (s.unstamped n).Acceptable s.table (s.headers.map Column.ofText) last
      (s.headers.map Column.ofText) := by
  have hst := h.stamped_unstamped n
  refine ⟨rfl, ?_, h.headers, ?_, ?_, fun id hid => hlast id (RowSet.lt_of_mem_unstamped hid), ?_⟩
  · exact fun hnil => h.nonempty (List.map_eq_nil_iff.1 hnil)
  · rw [List.map_map]
    exact List.map_congr_left (fun id hid => Column.find?_ofText hid)
  · have hnodup := hst.rowIds_perm.nodup_iff.1 h.rowIds
    exact hnodup.of_append_left
  · intro r' hr'
    obtain ⟨r, hr, rfl⟩ := List.mem_map.1 hr'
    have hrow := h.rows r hr
    have hkept : (Row.unstamped n r).values = r.values := by
      unfold Row.unstamped
      split
      · rfl
      · rfl
    by_cases hnil : r.values = []
    · -- A deletion has an id that was handed out, and keeps it.
      obtain ⟨id, hid⟩ := Option.isSome_iff_exists.1 hrow.hasId
      have hdelete : r.isDeletion = true := Row.isDeletion_iff.2 ⟨hrow.hasId, hnil⟩
      have hbelow : ¬n ≤ id := by
        intro hle
        rw [hvalues r hr id hid hle] at hdelete
        cases hdelete
      have hsame : Row.unstamped n r = r := if_neg (by simpa [hid] using hbelow)
      rw [hsame]
      exact Or.inl hdelete
    · have hwidth := hrow.width.resolve_left hnil
      refine Or.inr ⟨?_, ?_, fun cell hcell => ?_⟩
      · intro hcolumns
        rw [List.map_eq_nil_iff.1 hcolumns] at hwidth
        exact hnil (List.eq_nil_of_length_eq_zero hwidth)
      · rw [hkept, hwidth, List.length_map]
      · obtain ⟨id, -, he⟩ := List.mem_map.1 (List.of_mem_zip hcell).1
        rw [← he]
        exact Column.checkCell_ofText id cell.2

/-- An engine of which the next version of a table is `version` and the next row id is `n`. -/
def Engine.awaiting (table : TableId) (n : RowId) (version : Version) : Engine :=
  (Engine.perform { settings := { firstRowId := 0, firstVersion := version } }
    ⟨.administrator 0, .unbound, 0, .advance table n version⟩).2

namespace Engine

variable {table : TableId} {n : RowId} {version : Version}

theorem reachable_awaiting : (awaiting table n version).Reachable := .perform _ (.start _ _)

theorem counter_awaiting :
    (awaiting table n version).counter table = (Counter.starting 0 version).advance n version := by
  show Counters.current (SortedMap.insert ∅ table _) table _ = _
  rw [Counters.current_insert, if_pos rfl]
  rfl

theorem nextRowId_awaiting : ((awaiting table n version).counter table).nextRowId = n := by
  rw [counter_awaiting, Counter.nextRowId_advance]
  split
  · rfl
  · next h =>
      have hle := UInt64.le_iff_toNat_le.1 (UInt64.not_lt.1 h)
      exact UInt64.toNat_inj.1 (Nat.le_antisymm (Nat.zero_le _) hle)

theorem nextVersion_awaiting :
    ((awaiting table n version).counter table).nextVersion = version := by
  rw [counter_awaiting, Counter.nextVersion_advance]
  exact Std.max_self

theorem allocated_awaiting {id : RowId} (h : id < n) :
    RowId.Allocated ((awaiting table n version).counter table).lastRowId id := by
  have hpos : (0 : RowId) < n :=
    UInt64.lt_of_le_of_lt (UInt64.le_iff_toNat_le.2 (Nat.zero_le _)) h
  rw [counter_awaiting, Counter.lastRowId_advance]
  refine ⟨n - 1, if_pos hpos, ?_⟩
  rw [UInt64.le_iff_toNat_le, Counter.toNat_sub_one hpos]
  exact Nat.le_pred_of_lt (UInt64.lt_iff_toNat_lt.1 h)

/-- It commits what is acceptable, as long as there are enough numbers. -/
theorem exists_commits_awaiting {s : RowSet} {schema columns : List Column}
    (hs : s.Acceptable table schema ((awaiting table n version).counter table).lastRowId columns)
    (hversion : version.toNat < Bounded.greatest) (hrowIds : n.toNat + s.newRows ≤ Bounded.greatest)
    (user : UserId) (millis : UInt64) :
    ∃ r c rows references ledger,
      Ledger.Commits (awaiting table n version).initial (awaiting table n version).ledger user millis s
        r c rows references ledger ∧
      (awaiting table n version).appendUnder millis (.administrator user) table schema s =
        (.ok references, (awaiting table n version).withLedger ledger) := by
  rcases Ledger.append_cases reachable_awaiting.sound user millis table schema s with
    ⟨error, hcheck, -⟩ | ⟨columns', -, ⟨error, hres, -⟩ |
      ⟨r, c, rows, references, ledger, hcommits, happend⟩⟩
  · cases (RowSet.check_eq_ok_iff.2 ⟨columns, hs⟩).symm.trans hcheck
  · have hres : ((awaiting table n version).counter table).reserve table s.newRows = .error error :=
      hres
    rcases Counter.reserve_eq_error hres with ⟨-, hle⟩ | ⟨-, hlt⟩
    · rw [nextVersion_awaiting] at hle
      omega
    · rw [nextRowId_awaiting] at hlt
      omega
  · refine ⟨r, c, rows, references, ledger, hcommits, ?_⟩
    unfold appendUnder
    split
    · next error haccess => cases haccess
    · exact congrArg (fun o => (o.1, (awaiting table n version).withLedger o.2)) happend

end Engine

/-- What a commit records is determined by what a change says and by the rows that it describes. -/
theorem Change.Describes.ofRowSet_eq {c : Change} {s : RowSet} (h : c.Describes s) {r : Reservation}
    (hversion : r.version = c.version) (hmin : r.minRowId = c.minRowId)
    (hmax : r.maxRowId = c.maxRowId) (hkey : c.contentKey = ⟨c.table, c.version⟩) :
    Change.ofRowSet s r c.createdBy c.createdOnMillis = c := by
  have hcount : Bounded.ofNatSat s.rows.length = c.rowCount := by
    have hle := Bounded.toNat_le_greatest c.rowCount
    have hlength := h.rowCount
    rw [← UInt64.toNat_inj, Bounded.toNat_ofNatSat]
    omega
  unfold Change.ofRowSet
  rw [hversion, hmin, hmax, hcount, h.table, ← h.columns, ← hkey]

/-- **Whatever looks like it can have been committed by an append.** -/
theorem Change.Appendable.appended {c : Change} {s : RowSet} (h : c.Appendable s) :
    c.Appended s := by
  obtain ⟨n, count, hfits, hids, hmin, hmax, hvalues⟩ :=
    h.allocates.exists_first h.describes h.rowIds
  have hst := h.describes.stamped_unstamped n
  have hnew : (s.unstamped n).newRows = count := by
    have hlength := congrArg List.length hids
    rw [List.length_map, List.length_range'] at hlength
    exact hst.length_fresh.symm.trans hlength
  have hs := h.describes.acceptable_unstamped hvalues
    (fun id hid => Engine.allocated_awaiting hid : ∀ id, id < n →
      RowId.Allocated ((Engine.awaiting s.table n c.version).counter s.table).lastRowId id)
  obtain ⟨r, c', rows, references, ledger, hcommits, hunder⟩ :=
    Engine.exists_commits_awaiting hs h.version (by omega) c.createdBy c.createdOnMillis
  have hreserves :
      ((Engine.awaiting s.table n c.version).counter s.table).Reserves count r c' := by
    rw [← hnew]
    exact hcommits.reserves
  have hversion : r.version = c.version := hreserves.version.trans Engine.nextVersion_awaiting
  -- The ids that are taken are those of the change, so that the rows are stamped as they were.
  have hrows : rows = s.rows := by
    have hmap := hreserves.map_toNat_rowIds
    rw [Engine.nextRowId_awaiting, ← hids] at hmap
    have hstamped := hcommits.stamped
    rw [hversion, (List.map_inj_right (fun _ _ he => UInt64.toNat_inj.1 he)).1 hmap] at hstamped
    exact hst.unique hstamped
  subst hrows
  have hc : Change.ofRowSet s r c.createdBy c.createdOnMillis = c := by
    refine h.describes.ofRowSet_eq hversion ?_ ?_ h.contentKey
    · rw [hreserves.minRowId, hmin, Engine.nextRowId_awaiting]
    · rw [hreserves.maxRowId, hmax]
      split
      · rfl
      · next h0 =>
          have hpred := hreserves.toNat_pred h0
          have hnext := hreserves.nextRowId
          rw [Engine.nextRowId_awaiting] at hnext
          refine congrArg some (UInt64.toNat_inj.1 ?_)
          rw [hpred, hnext, Bounded.toNat_ofNat_of_le (by omega)]
  have hreferences : references.version = r.version := by rw [hcommits.references]
  refine .intro Engine.reachable_awaiting (congrArg Prod.fst hunder) ?_ ?_
  · rw [hunder, hreferences]
    exact hcommits.change_eq.trans (congrArg Except.ok hc)
  · rw [hunder, hreferences]
    exact hcommits.rowSet_eq Engine.reachable_awaiting.sound hs

/-- **What an append can have committed is what looks like it.** -/
theorem Change.appended_iff {c : Change} {s : RowSet} : c.Appended s ↔ c.Appendable s :=
  ⟨Change.Appended.appendable, Change.Appendable.appended⟩

end VersionedTables
