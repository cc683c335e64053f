import Mathlib.Data.List.Induction
import VersionedTables.Proofs.Allocation

/-!
# The course of the counters

The counters of the tables live through demands of two kinds: reservations, which are granted or refused,
and advances.  Whatever was demanded before, a reservation is granted exactly where its numbers fit, and
what it hands out lies above everything that was handed out or passed over for its table.

* **`Happens`** — something happens somewhere in the course of a list.
* **`Demand`**, **`Demand.counters`** — a demand, and the counters behind a list of them.
* **`Demand.met`** — what one demand does to the counter of a table.
* **`Demand.Accounts`** — what the counter of a table knows of the demands before.
* **`Demand.accounted`** — everything that was demanded is accounted for.
-/

namespace VersionedTables

/-! ### Somewhere in a list -/

/-- Somewhere in a list there is an element that, with all the elements before it, satisfies `P`. -/
def Happens {α : Type} (P : List α → α → Prop) (as : List α) : Prop :=
  ∃ us a, us ++ [a] <+: as ∧ P us a

theorem not_happens_nil {α : Type} (P : List α → α → Prop) : ¬ Happens P [] := by
  rintro ⟨us, a, hprefix, -⟩
  have hnil := List.prefix_nil.1 hprefix
  simp at hnil

/-- What happens in a list and one element more happens before that element, or there. -/
theorem happens_concat {α : Type} {P : List α → α → Prop} {as : List α} {b : α} :
    Happens P (as ++ [b]) ↔ Happens P as ∨ P as b := by
  constructor
  · rintro ⟨us, a, hprefix, hp⟩
    rcases List.prefix_concat_iff.1 hprefix with heq | hearlier
    · obtain ⟨rfl, rfl⟩ := List.append_singleton_inj.1 heq
      exact Or.inr hp
    · exact Or.inl ⟨us, a, hearlier, hp⟩
  · rintro (⟨us, a, hprefix, hp⟩ | hp)
    · exact ⟨us, a, hprefix.trans (List.prefix_append as [b]), hp⟩
    · exact ⟨as, b, List.prefix_rfl, hp⟩

/-! ### Demands -/

inductive Demand where
  | reserve (table : TableId) (count : UInt64)
  | advance (table : TableId) (rowId : RowId) (version : Version)
deriving DecidableEq

namespace Demand

def table : Demand → TableId
  | .reserve table _ => table
  | .advance table _ _ => table

/-- The counters behind a demand. -/
def meet (initial : Counter) (cs : Counters) : Demand → Counters
  | .reserve table count => (cs.reserve table count.toNat initial).2
  | .advance table rowId version => (cs.advance table rowId version initial).2

section

variable (initial : Counter) (ds : List Demand) (table : TableId)

def counters : Counters := ds.foldl (meet initial) ∅

def counter : Counter := (counters initial ds).current table initial

/-- What a reservation of `count` row ids is answered behind a list of demands. -/
def outcome (count : UInt64) : Except Error Reservation :=
  ((counters initial ds).reserve table count.toNat initial).1

/-- A reservation is handed out to a table in the course of the demands. -/
def Granted (r : Reservation) : Prop :=
  Happens (fun us d => ∃ count, d = .reserve table count ∧ outcome initial us table count = .ok r) ds

/-- A row id is handed out in the course of the demands. -/
def HandedOut (id : RowId) : Prop := ∃ r, Granted initial ds table r ∧ id ∈ r.rowIds

/-- A row id lies between the counter and what an advance raises it to. -/
def PassedOver (id : RowId) : Prop :=
  Happens (fun us d => ∃ rowId version, d = .advance table rowId version ∧
    (counter initial us table).nextRowId ≤ id ∧ id < rowId) ds

/-- A row id is taken when it was handed out or passed over. -/
def Taken (id : RowId) : Prop := HandedOut initial ds table id ∨ PassedOver initial ds table id

end

variable {initial : Counter} {ds : List Demand} {table : TableId} {d : Demand}

theorem counters_concat : counters initial (ds ++ [d]) = meet initial (counters initial ds) d := by
  rw [counters, List.foldl_append]
  rfl

/-- A demand leaves the counters of all other tables as they are. -/
theorem counter_elsewhere (h : d.table ≠ table) :
    counter initial (ds ++ [d]) table = counter initial ds table := by
  unfold counter
  rw [counters_concat]
  cases d with
  | reserve t count =>
      have hne : table ≠ t := fun heq => h heq.symm
      cases hr : (counters initial ds).reserve t count.toNat initial with
      | mk o cs' =>
          cases o with
          | ok r =>
              obtain ⟨c', -, rfl⟩ := Counters.reserve_eq_ok hr
              simp only [meet, hr, Counters.current_insert, if_neg hne]
          | error e =>
              obtain ⟨-, rfl⟩ := Counters.reserve_eq_error hr
              simp only [meet, hr, Counters.current_insert, if_neg hne]
  | advance t rowId version =>
      have hne : table ≠ t := fun heq => h heq.symm
      simp only [meet, Counters.advance, Counters.current_insert, if_neg hne]

/-- What a demand behind `ds` makes of the counter of a table. -/
inductive Met (initial : Counter) (ds : List Demand) (table : TableId) : Demand → Counter → Prop
  | elsewhere {d : Demand} (h : d.table ≠ table) : Met initial ds table d (counter initial ds table)
  | granted {count : UInt64} {r : Reservation} {c : Counter}
      (hr : outcome initial ds table count = .ok r)
      (hc : (counter initial ds table).Reserves count.toNat r c) :
      Met initial ds table (.reserve table count) c
  | refused {count : UInt64} {e : Error} (he : outcome initial ds table count = .error e) :
      Met initial ds table (.reserve table count) (counter initial ds table)
  | advanced (rowId : RowId) (version : Version) :
      Met initial ds table (.advance table rowId version)
        ((counter initial ds table).advance rowId version)

/-- **What one demand does to the counter of a table.** -/
theorem met (initial : Counter) (ds : List Demand) (table : TableId) (d : Demand) :
    ∃ c, counter initial (ds ++ [d]) table = c ∧ Met initial ds table d c := by
  by_cases ht : d.table = table
  · subst ht
    refine ⟨_, rfl, ?_⟩
    unfold counter
    rw [counters_concat]
    cases d with
    | reserve t count =>
        cases hr : (counters initial ds).reserve t count.toNat initial with
        | mk o cs' =>
            have ho : outcome initial ds t count = o := congrArg Prod.fst hr
            cases o with
            | ok r =>
                obtain ⟨c', hc, rfl⟩ := Counters.reserve_eq_ok hr
                simp only [meet, hr, Demand.table, Counters.current_insert, if_true]
                exact .granted ho hc
            | error e =>
                obtain ⟨-, rfl⟩ := Counters.reserve_eq_error hr
                simp only [meet, hr, Demand.table, Counters.current_insert, if_true]
                exact .refused ho
    | advance t rowId version =>
        simp only [meet, Counters.advance, Demand.table, Counters.current_insert, if_true]
        exact .advanced rowId version
  · exact ⟨_, counter_elsewhere ht, .elsewhere ht⟩

/-! ### What the counter of a table knows -/

/-- What the counter of a table knows of the demands before. -/
structure Accounts (initial : Counter) (ds : List Demand) (table : TableId) : Prop where
  sound : initial.Sound (counter initial ds table)
  taken : ∀ id, Taken initial ds table id ↔
    initial.nextRowId ≤ id ∧ id < (counter initial ds table).nextRowId
  versions : ∀ r, Granted initial ds table r → r.version < (counter initial ds table).nextVersion
  advances : ∀ rowId version, Demand.advance table rowId version ∈ ds →
    rowId ≤ (counter initial ds table).nextRowId ∧
      version ≤ (counter initial ds table).nextVersion
  raised : ∀ us, us <+: ds → (counter initial us table).Raised (counter initial ds table)

theorem granted_concat {r : Reservation} : Granted initial (ds ++ [d]) table r ↔
    Granted initial ds table r ∨
      ∃ count, d = .reserve table count ∧ outcome initial ds table count = .ok r :=
  happens_concat

theorem passedOver_concat {id : RowId} : PassedOver initial (ds ++ [d]) table id ↔
    PassedOver initial ds table id ∨ ∃ rowId version, d = .advance table rowId version ∧
      (counter initial ds table).nextRowId ≤ id ∧ id < rowId :=
  happens_concat

/-- A demand hands a row id out, or passes over it. -/
def Takes (initial : Counter) (ds : List Demand) (table : TableId) (d : Demand) (id : RowId) : Prop :=
  (∃ count r, d = .reserve table count ∧ outcome initial ds table count = .ok r ∧ id ∈ r.rowIds) ∨
  (∃ rowId version, d = .advance table rowId version ∧
    (counter initial ds table).nextRowId ≤ id ∧ id < rowId)

theorem taken_concat {id : RowId} : Taken initial (ds ++ [d]) table id ↔
    Taken initial ds table id ∨ Takes initial ds table d id := by
  unfold Taken Takes
  rw [passedOver_concat]
  constructor
  · rintro (⟨r, hr, hid⟩ | hover | hnow)
    · rcases granted_concat.1 hr with hearlier | ⟨count, hd, hok⟩
      · exact Or.inl (Or.inl ⟨r, hearlier, hid⟩)
      · exact Or.inr (Or.inl ⟨count, r, hd, hok, hid⟩)
    · exact Or.inl (Or.inr hover)
    · exact Or.inr (Or.inr hnow)
  · rintro ((⟨r, hr, hid⟩ | hover) | ⟨count, r, hd, hok, hid⟩ | hnow)
    · exact Or.inl ⟨r, granted_concat.2 (Or.inl hr), hid⟩
    · exact Or.inr (Or.inl hover)
    · exact Or.inl ⟨r, granted_concat.2 (Or.inr ⟨count, hd, hok⟩), hid⟩
    · exact Or.inr (Or.inr hnow)

/-! ### One demand more -/

namespace Met

variable {c : Counter}

theorem raised (h : Met initial ds table d c) : (counter initial ds table).Raised c := by
  cases h with
  | elsewhere _ => exact .refl _
  | granted _ hc => exact hc.raised
  | refused _ => exact .refl _
  | advanced rowId version => exact Counter.raised_advance _ rowId version

theorem sound (h : Met initial ds table d c) (hs : initial.Sound (counter initial ds table)) :
    initial.Sound c := by
  cases h with
  | elsewhere _ => exact hs
  | granted _ hc => exact hc.sound hs
  | refused _ => exact hs
  | advanced rowId version => exact Counter.sound_advance hs rowId version

/-- What a demand takes are the numbers from the counter before to the counter behind. -/
theorem takes_iff (h : Met initial ds table d c) (id : RowId) :
    Takes initial ds table d id ↔ (counter initial ds table).nextRowId ≤ id ∧ id < c.nextRowId := by
  have hempty : ∀ n : RowId, ¬ (n ≤ id ∧ id < n) := fun n hn => UInt64.not_lt.2 hn.1 hn.2
  cases h with
  | elsewhere ht =>
      refine iff_of_false ?_ (hempty _)
      rintro (⟨count, r, rfl, -, -⟩ | ⟨rowId, version, rfl, -⟩)
      · exact ht rfl
      · exact ht rfl
  | granted hr hc =>
      rw [← hc.mem_rowIds_iff]
      constructor
      · rintro (⟨count, r, heq, hr', hid⟩ | ⟨rowId, version, heq, -⟩)
        · cases heq
          rw [hr] at hr'
          cases hr'
          exact hid
        · cases heq
      · intro hid
        exact Or.inl ⟨_, _, rfl, hr, hid⟩
  | refused he =>
      refine iff_of_false ?_ (hempty _)
      rintro (⟨count, r, heq, hr, -⟩ | ⟨rowId, version, heq, -⟩)
      · cases heq
        rw [he] at hr
        cases hr
      · cases heq
  | advanced rowId version =>
      rw [Counter.nextRowId_advance]
      constructor
      · rintro (⟨count, r, heq, -, -⟩ | ⟨rowId', version', heq, hle, hlt⟩)
        · cases heq
        · cases heq
          rw [if_pos (Std.lt_of_le_of_lt hle hlt)]
          exact ⟨hle, hlt⟩
      · rintro ⟨hle, hlt⟩
        refine Or.inr ⟨rowId, version, rfl, hle, ?_⟩
        by_cases hraise : (counter initial ds table).nextRowId < rowId
        · rwa [if_pos hraise] at hlt
        · rw [if_neg hraise] at hlt
          exact absurd ⟨hle, hlt⟩ (hempty _)

/-- A version that is handed out lies below the counter from then on. -/
theorem version_lt {count : UInt64} {r : Reservation} (h : Met initial ds table (.reserve table count) c)
    (hr : outcome initial ds table count = .ok r) : r.version < c.nextVersion := by
  cases h with
  | elsewhere ht => exact absurd rfl ht
  | granted hr' hc =>
      rw [hr'] at hr
      cases hr
      have hnext := hc.nextVersion
      rw [hc.version, UInt64.lt_iff_toNat_lt]
      omega
  | refused he =>
      rw [he] at hr
      cases hr

/-- A counter that was to be raised stands at or above what it was to be raised to. -/
theorem le_of_advance {rowId : RowId} {version : Version}
    (h : Met initial ds table (.advance table rowId version) c) :
    rowId ≤ c.nextRowId ∧ version ≤ c.nextVersion := by
  cases h with
  | elsewhere ht => exact absurd rfl ht
  | advanced => exact Counter.le_advance _ rowId version

end Met

theorem accounts_nil (initial : Counter) (h : initial.lastRowId = none) (table : TableId) :
    Accounts initial [] table where
  sound := Counter.sound_initial h
  taken id := by
    constructor
    · rintro (⟨r, hr, -⟩ | hover)
      · exact absurd hr (not_happens_nil _)
      · exact absurd hover (not_happens_nil _)
    · rintro ⟨hle, hlt⟩
      exact absurd hlt (UInt64.not_lt.2 hle)
  versions r hr := absurd hr (not_happens_nil _)
  advances _ _ h := absurd h List.not_mem_nil
  raised us h := by
    rw [List.prefix_nil.1 h]
    exact .refl _

namespace Accounts

theorem le_nextRowId (h : Accounts initial ds table) :
    initial.nextRowId ≤ (counter initial ds table).nextRowId := by
  rcases h.sound with ⟨-, heq⟩ | ⟨hlt, -⟩
  · rw [heq]
    exact UInt64.le_refl _
  · exact UInt64.le_of_lt hlt

/-- What is known of the demands before is known of one more. -/
theorem concat (h : Accounts initial ds table) (d : Demand) : Accounts initial (ds ++ [d]) table := by
  obtain ⟨c, hc, hmet⟩ := met initial ds table d
  have hraised := hmet.raised
  refine ⟨?_, ?_, ?_, ?_, ?_⟩
  · rw [hc]
    exact hmet.sound h.sound
  · intro id
    have hinitial := h.le_nextRowId
    have hraisedId := hraised.rowId
    rw [hc, taken_concat, h.taken, hmet.takes_iff]
    simp only [UInt64.le_iff_toNat_le, UInt64.lt_iff_toNat_lt] at hinitial hraisedId ⊢
    omega
  · intro r hr
    rw [hc]
    rcases granted_concat.1 hr with hearlier | ⟨count, rfl, hok⟩
    · exact Std.lt_of_lt_of_le (h.versions r hearlier) hraised.version
    · exact hmet.version_lt hok
  · intro rowId version hmem
    rw [hc]
    rcases List.mem_append.1 hmem with hearlier | hnow
    · obtain ⟨hrowId, hversion⟩ := h.advances rowId version hearlier
      exact ⟨UInt64.le_trans hrowId hraised.rowId, UInt64.le_trans hversion hraised.version⟩
    · rw [← List.mem_singleton.1 hnow] at hmet
      exact hmet.le_of_advance
  · intro us hus
    rw [hc]
    rcases List.prefix_concat_iff.1 hus with rfl | hearlier
    · rw [hc]
      exact .refl _
    · have hu := h.raised us hearlier
      exact ⟨UInt64.le_trans hu.rowId hraised.rowId, UInt64.le_trans hu.version hraised.version⟩

end Accounts

/-- **What the counter of a table knows of everything that was demanded.** -/
theorem accounts (initial : Counter) (h : initial.lastRowId = none) (ds : List Demand)
    (table : TableId) : Accounts initial ds table := by
  induction ds using List.reverseRecOn with
  | nil => exact accounts_nil initial h table
  | append_singleton ds d ih => exact ih.concat d

/-! ### What is handed out -/

/-- What a reservation of `count` row ids hands out to a table behind demands. -/
structure HandsOut (initial : Counter) (ds : List Demand) (table : TableId) (count : UInt64)
    (r : Reservation) : Prop where
  version : ∀ r', Granted initial ds table r' → r'.version < r.version
  rowIds : ∃ first, r.rowIds.map UInt64.toNat = List.range' first count.toNat
  bounds : r.minRowId = r.rowIds.head? ∧ r.maxRowId = r.rowIds.getLast?
  above : ∀ id ∈ r.rowIds, ∀ id', Taken initial ds table id' → id' < id
  maxUpdateRowId_none : r.maxUpdateRowId = none ↔ ∀ id, ¬ Taken initial ds table id
  maxUpdateRowId_some : ∀ last, r.maxUpdateRowId = some last →
    Taken initial ds table last ∧ ∀ id, Taken initial ds table id → id ≤ last
  advances : ∀ rowId version, Demand.advance table rowId version ∈ ds →
    version ≤ r.version ∧ ∀ id ∈ r.rowIds, rowId ≤ id

namespace Accounts

/-- The row ids that are taken have a greatest one, which is the last one of the counter. -/
theorem greatest_taken (h : Accounts initial ds table) {last : RowId}
    (hlast : (counter initial ds table).lastRowId = some last) :
    Taken initial ds table last ∧ ∀ id, Taken initial ds table id → id ≤ last := by
  constructor
  · rw [h.taken]
    exact ⟨h.sound.le_lastRowId hlast, h.sound.lt_nextRowId hlast⟩
  · intro id hid
    have hbelow := ((h.taken id).1 hid).2
    have hnext := (h.sound.toNat_lastRowId hlast).1
    rw [UInt64.lt_iff_toNat_lt] at hbelow
    rw [UInt64.le_iff_toNat_le]
    omega

/-- The counter has no last row id as long as none is taken. -/
theorem lastRowId_eq_none_iff (h : Accounts initial ds table) :
    (counter initial ds table).lastRowId = none ↔ ∀ id, ¬ Taken initial ds table id := by
  constructor
  · intro hnone id hid
    obtain ⟨hle, hlt⟩ := (h.taken id).1 hid
    rcases h.sound with ⟨-, heq⟩ | ⟨-, hsome⟩
    · rw [heq] at hlt
      exact UInt64.not_lt.2 hle hlt
    · rw [hsome] at hnone
      cases hnone
  · intro hnothing
    cases hlast : (counter initial ds table).lastRowId with
    | none => rfl
    | some last => exact absurd (h.greatest_taken hlast).1 (hnothing last)

/-- **What a reservation hands out**, said in terms of everything that was demanded before. -/
theorem handsOut (h : Accounts initial ds table) {count : UInt64} {r : Reservation} {c : Counter}
    (hc : (counter initial ds table).Reserves count.toNat r c) :
    HandsOut initial ds table count r where
  version r' hr' := by
    rw [hc.version]
    exact h.versions r' hr'
  rowIds := ⟨_, hc.map_toNat_rowIds⟩
  bounds := ⟨hc.minRowId_eq, hc.maxRowId_eq⟩
  above id hid id' hid' := by
    have hbelow := ((h.taken id').1 hid').2
    exact Std.lt_of_lt_of_le hbelow (hc.mem_rowIds hid).1
  maxUpdateRowId_none := by
    rw [hc.maxUpdateRowId]
    exact h.lastRowId_eq_none_iff
  maxUpdateRowId_some last hlast := by
    rw [hc.maxUpdateRowId] at hlast
    exact h.greatest_taken hlast
  advances rowId version hmem := by
    obtain ⟨hrowId, hversion⟩ := h.advances rowId version hmem
    rw [hc.version]
    exact ⟨hversion, fun id hid => UInt64.le_trans hrowId (hc.mem_rowIds hid).1⟩

end Accounts

/-! ### Everything is accounted for -/

/-- What is true of a table behind demands, and what the next demand does to it. -/
structure Accounted (initial : Counter) (ds : List Demand) (table : TableId) : Prop where
  lastRowId : ∀ last, (counter initial ds table).lastRowId = some last →
    last.toNat + 1 = (counter initial ds table).nextRowId.toNat
  raised : ∀ us, us <+: ds → (counter initial us table).Raised (counter initial ds table)
  granted : ∀ count : UInt64, (counter initial ds table).HasRoom count.toNat →
    ∃ r, outcome initial ds table count = .ok r ∧ HandsOut initial ds table count r ∧
      (counter initial (ds ++ [.reserve table count]) table).nextVersion.toNat =
        (counter initial ds table).nextVersion.toNat + 1 ∧
      (counter initial (ds ++ [.reserve table count]) table).nextRowId.toNat =
        (counter initial ds table).nextRowId.toNat + count.toNat
  refused : ∀ count : UInt64, ¬ (counter initial ds table).HasRoom count.toNat →
    ∃ e, outcome initial ds table count = .error e ∧
      (e = .versionsExhausted table ∧
          Bounded.greatest < (counter initial ds table).nextVersion.toNat + 1 ∨
        e = .rowIdsExhausted table ∧
          Bounded.greatest < (counter initial ds table).nextRowId.toNat + count.toNat) ∧
      ∀ t, counter initial (ds ++ [.reserve table count]) t = counter initial ds t
  advanced : ∀ rowId version,
    ((counters initial ds).advance table rowId version initial).1 =
        counter initial (ds ++ [.advance table rowId version]) table ∧
      (counter initial (ds ++ [.advance table rowId version]) table).nextRowId.toNat =
        max (counter initial ds table).nextRowId.toNat rowId.toNat ∧
      (counter initial (ds ++ [.advance table rowId version]) table).nextVersion.toNat =
        max (counter initial ds table).nextVersion.toNat version.toNat
  elsewhere : ∀ d : Demand, d.table ≠ table →
    counter initial (ds ++ [d]) table = counter initial ds table

/-- A reservation is refused for what is used up. -/
theorem outcome_eq_error {count : UInt64} {e : Error}
    (h : outcome initial ds table count = .error e) :
    e = .versionsExhausted table ∧
        Bounded.greatest < (counter initial ds table).nextVersion.toNat + 1 ∨
      e = .rowIdsExhausted table ∧
        Bounded.greatest < (counter initial ds table).nextRowId.toNat + count.toNat := by
  obtain ⟨hreserve, -⟩ := Counters.reserve_eq_error (Prod.ext h rfl)
  rcases Counter.reserve_eq_error hreserve with ⟨he, hfull⟩ | ⟨he, hfull⟩
  · exact Or.inl ⟨he, Nat.lt_succ_of_le hfull⟩
  · exact Or.inr ⟨he, hfull⟩

/-- A reservation that is granted takes its numbers from the counter. -/
theorem reserves_of_outcome {count : UInt64} {r : Reservation}
    (h : outcome initial ds table count = .ok r) :
    (counter initial ds table).Reserves count.toNat r
      (counter initial (ds ++ [.reserve table count]) table) := by
  obtain ⟨c, hc, hmet⟩ := met initial ds table (.reserve table count)
  rw [hc]
  cases hmet with
  | elsewhere ht => exact absurd rfl ht
  | granted hr hreserves =>
      rw [h] at hr
      cases hr
      exact hreserves
  | refused he =>
      rw [h] at he
      cases he

/-- A reservation that is refused leaves the counters of all tables as they are. -/
theorem counter_of_outcome_error {count : UInt64} {e : Error}
    (h : outcome initial ds table count = .error e) (t : TableId) :
    counter initial (ds ++ [.reserve table count]) t = counter initial ds t := by
  obtain ⟨c, hc, hmet⟩ := met initial ds t (.reserve table count)
  rw [hc]
  cases hmet with
  | elsewhere _ => rfl
  | granted hr _ =>
      rw [h] at hr
      cases hr
  | refused _ => rfl

theorem Accounts.granted (h : Accounts initial ds table) {count : UInt64}
    (hroom : (counter initial ds table).HasRoom count.toNat) :
    ∃ r, outcome initial ds table count = .ok r ∧ HandsOut initial ds table count r ∧
      (counter initial (ds ++ [.reserve table count]) table).nextVersion.toNat =
        (counter initial ds table).nextVersion.toNat + 1 ∧
      (counter initial (ds ++ [.reserve table count]) table).nextRowId.toNat =
        (counter initial ds table).nextRowId.toNat + count.toNat := by
  cases ho : outcome initial ds table count with
  | error e =>
      obtain ⟨hversion, hrowId⟩ := hroom
      rcases outcome_eq_error ho with ⟨-, hfull⟩ | ⟨-, hfull⟩ <;> omega
  | ok r =>
      have hreserves := reserves_of_outcome ho
      exact ⟨r, rfl, h.handsOut hreserves, hreserves.nextVersion, hreserves.nextRowId⟩

theorem refused {count : UInt64} (hroom : ¬ (counter initial ds table).HasRoom count.toNat) :
    ∃ e, outcome initial ds table count = .error e := by
  cases ho : outcome initial ds table count with
  | error e => exact ⟨e, rfl⟩
  | ok r => exact absurd (reserves_of_outcome ho).hasRoom hroom

theorem counter_advance (rowId : RowId) (version : Version) :
    counter initial (ds ++ [.advance table rowId version]) table =
      (counter initial ds table).advance rowId version := by
  obtain ⟨c, hc, hmet⟩ := met initial ds table (.advance table rowId version)
  rw [hc]
  cases hmet with
  | elsewhere ht => exact absurd rfl ht
  | advanced => rfl

/-- **Everything that was demanded is accounted for**: wherever the counters of the tables start and
whatever was demanded of them, the versions and the row ids that a table is handed out next lie above all
that it was handed out before, and a reservation is granted exactly where its numbers fit. -/
theorem accounted (firstRowId : RowId) (firstVersion : Version) (ds : List Demand) (table : TableId) :
    Accounted (.starting firstRowId firstVersion) ds table := by
  have h := accounts (.starting firstRowId firstVersion) rfl ds table
  refine ⟨fun last hlast => (h.sound.toNat_lastRowId hlast).1, h.raised,
    fun count hroom => h.granted hroom, ?_, ?_, fun d hd => counter_elsewhere hd⟩
  · intro count hroom
    obtain ⟨e, he⟩ := refused hroom
    exact ⟨e, he, outcome_eq_error he, counter_of_outcome_error he⟩
  · intro rowId version
    rw [counter_advance]
    exact ⟨rfl, Counter.toNat_nextRowId_advance _ _ _, Counter.toNat_nextVersion_advance _ _ _⟩

end Demand

end VersionedTables
