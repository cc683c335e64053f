import VersionedTables.Proofs.Column.Content
import VersionedTables.Proofs.Column.Listing
import VersionedTables.Proofs.Engine.BoundTables
import VersionedTables.Proofs.Engine.StoredColumns

/-!
# The columns that are listed

An engine lists the columns that were defined since everything was last removed, each once and by name.  It
does not matter in which order they were defined, nor how often, nor whether one by one or together.  Two
columns that say different things are taken for one only where the hash collides, and then the first of them
is kept.

* **`Engine.defined`**, **`Engine.handle_defined`** — the columns that an event defines.
* **`Engine.DefinedSince`**, **`Engine.get?_catalog_iff`** — the columns that a course has left.
* **`Engine.listings_complete`** — what is listed during a course, of columns and of tables.
-/

namespace VersionedTables

namespace Engine

variable {e : Engine} {column : Column}

/-! ### The columns that an event defines -/

/-- The columns that an event defines: those that a request to define columns is answered. -/
def defined (e : Engine) : Event → List Column
  | .authorize _ => []
  | .request r =>
      match r.operation, (e.perform r).1 with
      | .createColumn _, .ok (.column column) => [column]
      | .createColumns _, .ok (.columns columns) => columns
      | _, _ => []

/-- To define a column is to add it to the catalog. -/
theorem createColumn_eq_ok {caller : Caller} {spec : ColumnSpec} {e' : Engine}
    (h : e.createColumn caller spec = .ok (column, e')) :
    [spec].mapM (ColumnSpec.define e.settings) = .ok [column] ∧
      e' = { e with catalog := [column].foldl Catalog.add e.catalog } := by
  obtain ⟨⟨⟩, -, h⟩ := Outcome.bind_eq_ok_iff.1 h
  obtain ⟨column', hcolumn, he⟩ := Outcome.bind_eq_ok_iff.1 h
  cases he
  refine ⟨?_, rfl⟩
  rw [List.mapM_cons, hcolumn]
  rfl

/-- **What an event does to the catalog**: the columns that it defines, all of them under the settings of the
engine, are added, or everything is removed. -/
theorem handle_defined (e : Engine) (v : Event) :
    (∃ specs : List ColumnSpec, specs.mapM (ColumnSpec.define e.settings) = .ok (e.defined v)) ∧
      (e.handle v).2.catalog =
        (e.defined v).foldl Catalog.add (if v.removesAll then ∅ else e.catalog) := by
  cases v with
  | authorize authority => exact ⟨⟨[], rfl⟩, rfl⟩
  | request r =>
      show _ ∧ (e.perform r).2.catalog = _
      cases hop : r.operation with
      | createColumn spec =>
          have hkept : (Event.request r).removesAll = false := by
            simp [Event.removesAll, hop]
          rw [hkept, defined, hop, perform_createColumn hop]
          cases hc : e.createColumn r.caller spec with
          | error error => exact ⟨⟨[], rfl⟩, rfl⟩
          | ok p =>
              obtain ⟨column, e'⟩ := p
              obtain ⟨hspecs, rfl⟩ := createColumn_eq_ok hc
              exact ⟨⟨[spec], hspecs⟩, rfl⟩
      | createColumns specs =>
          have hkept : (Event.request r).removesAll = false := by
            simp [Event.removesAll, hop]
          rw [hkept, defined, hop, perform_createColumns hop]
          cases hc : e.createColumns r.caller specs with
          | error error => exact ⟨⟨[], rfl⟩, rfl⟩
          | ok p =>
              obtain ⟨columns, e'⟩ := p
              obtain ⟨hspecs, rfl⟩ := createColumns_eq_ok hc
              exact ⟨⟨specs, hspecs⟩, rfl⟩
      | truncate =>
          have hremoved : (Event.request r).removesAll = r.caller.admin := by
            simp [Event.removesAll, hop]
          rw [hremoved, defined, hop, perform, hop]
          unfold truncate
          cases r.caller.admin with
          | true => exact ⟨⟨[], rfl⟩, rfl⟩
          | false => exact ⟨⟨[], rfl⟩, rfl⟩
      | _ =>
          have hkept : (Event.request r).removesAll = false := by
            simp [Event.removesAll, hop]
          rw [(e.perform_within r).catalog (by simp [hop, Operation.changes]), hkept, defined, hop]
          exact ⟨⟨[], rfl⟩, rfl⟩

/-- A column that is defined is named by what it says. -/
theorem id_of_mem_defined {v : Event} (h : column ∈ e.defined v) : column.id = column.spec.id := by
  obtain ⟨specs, hspecs⟩ := (e.handle_defined v).1
  obtain ⟨spec, -, hspec⟩ := Outcome.exists_of_mem_of_mapM_eq_ok hspecs h
  rw [(ColumnSpec.define_eq_ok_iff.1 hspec).2]

/-! ### The columns that a course has left -/

/-- In a course the column was defined, and not everything was removed since. -/
def DefinedSince (e : Engine) (vs : List Event) (column : Column) : Prop :=
  Since (fun us v => column ∈ (e.course us).2.defined v) Event.removesAll vs

/-- The hash tells the columns apart that were defined and not removed since. -/
def Separated (e : Engine) (vs : List Event) : Prop :=
  ∀ a b, e.DefinedSince vs a → e.DefinedSince vs b →
    Sha256.Separates a.spec.canonicalText b.spec.canonicalText

theorem DefinedSince.id_eq {vs : List Event} (h : e.DefinedSince vs column) :
    column.id = column.spec.id := by
  obtain ⟨us, v, rest, -, hdefined, -⟩ := h
  exact id_of_mem_defined hdefined

section

variable (settings : Settings) (authority : Authority) (vs : List Event)

/-- The catalog has a column that was defined under each name, and nothing else. -/
theorem catalog_of_course :
    (∀ id column, (course { settings, authority } vs).2.catalog.get? id = some column →
      DefinedSince { settings, authority } vs column ∧ column.id = id) ∧
    ∀ column, DefinedSince { settings, authority } vs column →
      ((course { settings, authority } vs).2.catalog.get? column.id).isSome := by
  induction vs using List.reverseRecOn with
  | nil => exact ⟨nofun, fun column h => absurd h (not_since_nil _ _)⟩
  | append_singleton vs v ih =>
      obtain ⟨hkept, hfound⟩ := ih
      simp only [DefinedSince, since_concat]
      rw [course_concat, (handle_defined _ v).2]
      refine ⟨fun id column hget => ?_, fun column h => ?_⟩
      · rcases Catalog.of_get?_foldl_add hget with hold | ⟨hnew, hid⟩
        · cases hv : v.removesAll with
          | true =>
              rw [hv] at hold
              cases hold
          | false =>
              rw [hv] at hold
              obtain ⟨hsince, hid⟩ := hkept id column hold
              exact ⟨Or.inr ⟨rfl, hsince⟩, hid⟩
        · exact ⟨Or.inl hnew, hid⟩
      · rcases h with hnew | ⟨hv, hsince⟩
        · exact Catalog.isSome_get?_foldl_add _ hnew
        · obtain ⟨column', hold⟩ := Option.isSome_iff_exists.1 (hfound column hsince)
          rw [hv]
          exact Option.isSome_of_eq_some (Catalog.extends_foldl_add _ _ _ _ hold)

/-- **The columns that a course has left**, where the hash tells them apart, are those that were defined and
not removed since. -/
theorem get?_catalog_iff (hash : Separated { settings, authority } vs) {id : ColumnId} :
    (course { settings, authority } vs).2.catalog.get? id = some column ↔
      DefinedSince { settings, authority } vs column ∧ column.id = id := by
  obtain ⟨hkept, hfound⟩ := catalog_of_course settings authority vs
  refine ⟨hkept id column, ?_⟩
  rintro ⟨hsince, rfl⟩
  obtain ⟨column', hget⟩ := Option.isSome_iff_exists.1 (hfound column hsince)
  obtain ⟨hsince', hid⟩ := hkept column.id column' hget
  have hspec : column'.spec = column.spec := by
    refine (ColumnSpec.id_eq_iff (hash column' column hsince' hsince)).1 ?_
    rw [← hsince'.id_eq, hid, hsince.id_eq]
  rw [hget]
  exact congrArg some ((Column.mk.injEq ..).mpr ⟨hid, hspec⟩)

end

/-! ### The order of definitions -/

theorem settings_course (e : Engine) (vs : List Event) : (e.course vs).2.settings = e.settings := by
  induction vs generalizing e with
  | nil => rfl
  | cons v vs ih =>
      refine (ih (e.handle v).2).trans ?_
      cases v with
      | authorize authority => rfl
      | request r => exact (e.perform_within r).settings

/-- What an event defines depends on the settings only. -/
theorem defined_congr {e' : Engine} (h : e'.settings = e.settings) (v : Event) :
    e'.defined v = e.defined v := by
  cases v with
  | authorize authority => rfl
  | request r =>
      rw [defined, defined]
      cases hop : r.operation with
      | createColumn spec =>
          rw [perform_createColumn hop, perform_createColumn hop, createColumn, createColumn, h]
          cases requireLogin r.caller with
          | error error => rfl
          | ok _ => cases spec.define e.settings <;> rfl
      | createColumns specs =>
          rw [perform_createColumns hop, perform_createColumns hop, createColumns, createColumns, h]
          cases requireLogin r.caller with
          | error error => rfl
          | ok _ => cases specs.mapM (ColumnSpec.define e.settings) <;> rfl
      | _ => rfl

/-- As long as nothing is removed, it does not matter when a column was defined and how often. -/
theorem definedSince_iff_exists {vs : List Event} (h : ∀ v ∈ vs, v.removesAll = false) :
    e.DefinedSince vs column ↔ ∃ v ∈ vs, column ∈ e.defined v := by
  have hdefined : ∀ us v, (e.course us).2.defined v = e.defined v :=
    fun us v => defined_congr (e.settings_course us) v
  unfold DefinedSince
  simp only [hdefined]
  exact since_iff_exists h

/-! ### What is listed -/

theorem handsOut_list (e : Engine) (beginning : Option String) :
    e.HandsOut (.listColumns beginning) .columnPage (e.catalog.list beginning) := by
  intro r limit offset hr
  unfold perform
  rw [hr]
  show (Except.map _ (e.listColumns ..), e) = _
  unfold listColumns Page.checkLimit
  split <;> rfl

/-- What is listed behind a course of the columns whose name begins with a text. -/
structure ListsColumns (start : Engine) (vs : List Event) (beginning : Option String)
    (listing : List Column) : Prop where
  handsOut : (start.course vs).2.HandsOut (.listColumns beginning) .columnPage listing
  readsAll : listing.length ≤ Bounded.greatest →
    (start.course vs).2.ReadsAll (.listColumns beginning) .columnPage listing
  mem_iff : ∀ column, column ∈ listing ↔ start.DefinedSince vs column ∧
    ∀ b ∈ beginning, b.toList <+: column.spec.name.toList
  ascending : listing.Pairwise Column.Before

section

variable {settings settings' : Settings} {authority authority' : Authority} {vs vs' : List Event}

theorem listsColumns_list (hash : Separated { settings, authority } vs) (beginning : Option String) :
    ListsColumns { settings, authority } vs beginning
      ((course { settings, authority } vs).2.catalog.list beginning) := by
  have hhands := (course { settings, authority } vs).2.handsOut_list beginning
  refine ⟨hhands, hhands.reads_all, fun column => ?_, ?_⟩
  · rw [Catalog.mem_list_iff]
    refine and_congr_left' ?_
    constructor
    · rintro ⟨id, hget⟩
      exact ((get?_catalog_iff settings authority vs hash).1 hget).1
    · intro hsince
      exact ⟨column.id, (get?_catalog_iff settings authority vs hash).2 ⟨hsince, rfl⟩⟩
  · refine Catalog.Keyed.list_ascending (fun id column hget => ?_) beginning
    exact ((catalog_of_course settings authority vs).1 id column hget).2

/-- Two courses that have left the same columns have left the same catalog. -/
theorem catalog_congr (hash : Separated { settings, authority } vs)
    (hsame : ∀ column, DefinedSince { settings := settings', authority := authority' } vs' column ↔
      DefinedSince { settings, authority } vs column) :
    (course { settings := settings', authority := authority' } vs').2.catalog =
      (course { settings, authority } vs).2.catalog := by
  have hash' : Separated { settings := settings', authority := authority' } vs' :=
    fun a b ha hb => hash a b ((hsame a).1 ha) ((hsame b).1 hb)
  refine SortedMap.ext_get? (fun id => Option.ext (fun column => ?_))
  rw [get?_catalog_iff settings' authority' vs' hash', get?_catalog_iff settings authority vs hash,
    hsame]

/-- **What is listed during a course.**  The columns that were defined since everything was last removed, and
whose name begins with the text that is asked for, are handed out page after page, each once and by name,
if the hash tells them apart.  Every other course that has left the same columns has the same listing.  So it
does not matter in what order columns are defined, how often, and what else happens meanwhile.  The tables
that have some columns are handed out in the same way. -/
theorem listings_complete (hash : Separated { settings, authority } vs) :
    (∀ beginning, ∃ listing, ListsColumns { settings, authority } vs beginning listing ∧
      ∀ (settings' : Settings) (authority' : Authority) (vs' : List Event),
        (∀ column, DefinedSince { settings := settings', authority := authority' } vs' column ↔
          DefinedSince { settings, authority } vs column) →
        ListsColumns { settings := settings', authority := authority' } vs' beginning listing) ∧
    (∀ vs' : List Event, (∀ v ∈ vs ++ vs', v.removesAll = false) →
      (∀ v, defined { settings, authority } v ≠ [] → (v ∈ vs' ↔ v ∈ vs)) →
      ∀ column, DefinedSince { settings, authority } vs' column ↔
        DefinedSince { settings, authority } vs column) ∧
    ∀ ids currentOnly, ∃ tables,
      (course { settings, authority } vs).2.ListsTables ids currentOnly tables := by
  refine ⟨fun beginning => ⟨_, listsColumns_list hash beginning, ?_⟩, ?_, fun ids currentOnly =>
    ⟨_, listsTables_boundTo _ ids currentOnly⟩⟩
  · intro settings' authority' vs' hsame
    rw [← catalog_congr hash hsame]
    exact listsColumns_list (fun a b ha hb => hash a b ((hsame a).1 ha) ((hsame b).1 hb)) beginning
  · intro vs' hkept hsame column
    obtain ⟨hvs, hvs'⟩ := List.forall_mem_append.1 hkept
    rw [definedSince_iff_exists hvs', definedSince_iff_exists hvs]
    refine exists_congr (fun v => and_congr_left (fun hcolumn => ?_))
    exact hsame v (List.ne_nil_of_mem hcolumn)

end

end Engine

namespace Sample

def define (operation : Operation) : Event := .request ⟨.user 7, .unbound, 0, operation⟩

/-- Two columns of one name, one of texts and one of numbers.  The texts are defined twice, once with blanks
around the name. -/
def twins : List Event :=
  [define (.createColumn bounded), define (.createColumns [number, padded]), define (.createColumns [])]

def texts : Column := ⟨bounded.id, bounded⟩

theorem definedSince_twins (vs : List Event) (hvs : ∀ v, v ∈ vs ↔ v ∈ twins) (column : Column) :
    Engine.DefinedSince {} vs column ↔ column = texts ∨ column = numbers := by
  have hkept : ∀ v ∈ vs, v.removesAll = false := by
    intro v hv
    have hmem := (hvs v).1 hv
    simp only [twins, List.mem_cons, List.not_mem_nil, or_false] at hmem
    rcases hmem with rfl | rfl | rfl <;> rfl
  have hfirst : Engine.defined {} (define (.createColumn bounded)) = [texts] := rfl
  have hsecond : Engine.defined {} (define (.createColumns [number, padded])) = [numbers, texts] := rfl
  have hthird : Engine.defined {} (define (.createColumns [])) = [] := rfl
  rw [Engine.definedSince_iff_exists hkept]
  simp only [hvs, twins, List.mem_cons, List.not_mem_nil, or_false, exists_eq_or_imp, exists_eq_left,
    hfirst, hsecond, hthird]
  constructor
  · rintro (h | h | h)
    exacts [Or.inl h, Or.inr h, Or.inl h]
  · rintro (h | h)
    exacts [Or.inl h, Or.inr (Or.inl h)]

/-- Two columns of one name are listed by the names of their content. -/
theorem numbers_before_texts : numbers.Before texts := by
  refine Or.inr ⟨rfl, ?_⟩
  decide +kernel

def ask (limit offset : UInt64) : Request :=
  ⟨.user 7, .unbound, 0, .listColumns (some "a") limit offset⟩

end Sample

namespace Engine

/-- The two columns of one name are listed, each once, in whatever order they were defined.  Each of them
stands on a page of its own if the pages are that short. -/
theorem listings_complete_twins :
    Separated {} Sample.twins ∧
      ListsColumns {} Sample.twins (some "a") [Sample.numbers, Sample.texts] ∧
      ListsColumns {} Sample.twins.reverse (some "a") [Sample.numbers, Sample.texts] ∧
      (∃ pages : List (Page Column),
        (course {} Sample.twins).2.run [Sample.ask 1 0, Sample.ask 1 1] =
          (pages.map (fun p => .ok (.columnPage p)), (course {} Sample.twins).2) ∧
        pages.flatMap (·.results) = [Sample.numbers, Sample.texts] ∧
        ∀ p ∈ pages, p.totalCount.toNat = 2) ∧
      (course {} Sample.twins).2.perform (Sample.ask 1 1) =
        (.ok (.columnPage ⟨[Sample.texts], 2⟩), (course {} Sample.twins).2) := by
  have hsince := Sample.definedSince_twins Sample.twins (fun _ => Iff.rfl)
  have hsince' := Sample.definedSince_twins Sample.twins.reverse (fun _ => List.mem_reverse)
  have hne : Sha256.ofText Sample.texts.spec.canonicalText ≠
      Sha256.ofText Sample.numbers.spec.canonicalText := by decide +kernel
  have hash : Separated {} Sample.twins := by
    intro a b ha hb
    rcases (hsince a).1 ha with rfl | rfl <;> rcases (hsince b).1 hb with rfl | rfl
    · exact fun _ => rfl
    · exact fun h => absurd h hne
    · exact fun h => absurd h.symm hne
    · exact fun _ => rfl
  obtain ⟨listing, hlists, hother⟩ := (listings_complete hash).1 (some "a")
  have hmem : ∀ column, column ∈ listing ↔ column ∈ [Sample.numbers, Sample.texts] := by
    intro column
    rw [hlists.mem_iff, hsince, List.mem_pair, Or.comm]
    refine and_iff_left_of_imp ?_
    rintro (rfl | rfl) <;> decide
  have hpair : [Sample.numbers, Sample.texts].Pairwise Column.Before :=
    List.pairwise_pair.2 Sample.numbers_before_texts
  obtain rfl : listing = [Sample.numbers, Sample.texts] :=
    Column.eq_of_ascending hlists.ascending hpair hmem
  exact ⟨hash, hlists, hother {} {} _ (fun c => (hsince' c).trans (hsince c).symm),
    hlists.readsAll (by decide) 1 _ (by decide) (by decide) rfl,
    hlists.handsOut (Sample.ask 1 1) 1 1 rfl⟩

end Engine

end VersionedTables
