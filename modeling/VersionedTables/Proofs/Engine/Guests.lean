import VersionedTables.Proofs.Engine.Renaming

/-!
# Callers who are not logged in

Some operations ask their caller for a right, and the others do not look at the caller.  A request whose
caller lacks the right is refused and leaves the engine as it is.  A caller who is not logged in may at
most read, and cannot make columns; so whatever such a caller asks for can be dropped from a course, and
everybody else gets the same answers.  Administrators pass every check of a table: who administers and is
not logged in is refused columns only, and leaves a trace.

* **`Right`**, **`Operation.right?`** — what callers are asked for.
* **`Engine.perform_of_lacks`** — the refusal of a caller who lacks it.
* **`Engine.LeavesNoTrace`** — requests that nobody else notices.
* **`Engine.guests_leave_no_trace`** — those of callers who are not logged in.
-/

namespace VersionedTables

/-! ### Rights -/

/-- What a caller may be asked for. -/
inductive Right where
  | login
  | access (table : TableId) (mode : AccessMode)
  | administration

namespace Right

def isHeld (a : Authority) (c : Caller) : Right → Bool
  | login => !c.anonymous
  | access table mode => a.allows c table mode
  | administration => c.admin

/-- How a caller who lacks a right is refused. -/
def refusal (c : Caller) : Right → Error
  | login => .loginRequired
  | access table mode => .accessDenied c.userId mode table
  | administration => .adminRequired

theorem kind_refusal (right : Right) (c : Caller) : (right.refusal c).kind = .unauthorized := by
  cases right <;> rfl

/-- Whether a right is to see something only. -/
def isReading : Right → Bool
  | access _ .read => true
  | _ => false

/-- Whether administrators have a right in any case. -/
def comesWithAdministration : Right → Bool
  | login => false
  | _ => true

end Right

/-- The right that an operation asks its caller for. -/
def Operation.right? : Operation → Option Right
  | .createColumn _ | .createColumns _ => some .login
  | .tableColumns table | .currentColumns table _ => some (.access table .read)
  | .bind table _ _ | .changeSchema table _ _ | .append table _ | .appendUnder table _ _ =>
      some (.access table .update)
  | .truncate => some .administration
  | _ => none

namespace Engine

variable {e : Engine} {r : Request}

theorem requireLogin_of_lacks {a : Authority} {caller : Caller}
    (h : Right.login.isHeld a caller = false) :
    requireLogin caller = .error (Right.login.refusal caller) :=
  if_pos (by simpa [Right.isHeld] using h)

theorem requireAccess_of_lacks {caller : Caller} {table : TableId} {mode : AccessMode}
    (h : (Right.access table mode).isHeld e.authority caller = false) :
    e.requireAccess caller table mode = .error ((Right.access table mode).refusal caller) :=
  if_neg (Bool.eq_false_iff.1 h)

/-- **A caller who lacks the right that is asked for is refused**, and the engine stays as it is. -/
theorem perform_of_lacks {right : Right} (hr : r.operation.right? = some right)
    (hlacks : right.isHeld e.authority r.caller = false) :
    e.perform r = (.error (right.refusal r.caller), e) := by
  obtain ⟨caller, fresh, millis, operation⟩ := r
  cases operation with
  | createColumn | createColumns =>
      cases hr
      show e.settle _ (requireLogin caller >>= _) = _
      rw [requireLogin_of_lacks hlacks]
      rfl
  | tableColumns | currentColumns =>
      cases hr
      show e.query _ (e.requireAccess caller _ _ >>= _) = _
      rw [requireAccess_of_lacks hlacks]
      rfl
  | bind | changeSchema =>
      cases hr
      show e.settle _ (e.requireAccess caller _ _ >>= _) = _
      rw [requireAccess_of_lacks hlacks]
      rfl
  | append table delta =>
      cases hr
      show conclude _ (e.append millis caller table delta) = _
      rw [append, requireAccess_of_lacks hlacks]
      rfl
  | appendUnder table schema delta =>
      cases hr
      show conclude _ (e.appendUnder millis caller table schema delta) = _
      rw [appendUnder, requireAccess_of_lacks hlacks]
      rfl
  | truncate =>
      cases hr
      have htruncate : e.truncate caller = .error .adminRequired := if_neg (Bool.eq_false_iff.1 hlacks)
      show e.settle _ ((e.truncate caller).map _) = _
      rw [htruncate]
      rfl
  | _ => cases hr

/-- A request to see something leaves the engine as it is. -/
theorem perform_of_reads {right : Right} (hr : r.operation.right? = some right)
    (hreads : right.isReading = true) : (e.perform r).2 = e := by
  obtain ⟨caller, fresh, millis, operation⟩ := r
  cases operation with
  | tableColumns | currentColumns => rfl
  | createColumn | createColumns | bind | changeSchema | append | appendUnder | truncate =>
      cases hr
      cases hreads
  | _ => cases hr

/-- Where the right comes with administration, administrators are answered alike, logged in or not. -/
theorem perform_of_administrator {right : Right} (hr : r.operation.right? = some right)
    (hcomes : right.comesWithAdministration = true) (hadmin : r.caller.admin = true)
    (anonymous : Bool) :
    e.perform { r with caller := { r.caller with anonymous } } = e.perform r := by
  obtain ⟨⟨userId, anonymous', admin⟩, fresh, millis, operation⟩ := r
  obtain rfl : admin = true := hadmin
  cases operation with
  | createColumn | createColumns =>
      cases hr
      cases hcomes
  | tableColumns | currentColumns | bind | changeSchema | append | appendUnder | truncate => rfl
  | _ => cases hr

end Engine

/-! ### Guests -/

namespace Request

/-- Whether the caller is asked for a right and is not logged in. -/
def isFromGuest (r : Request) : Bool := r.caller.anonymous && r.operation.right?.isSome

/-- Whether the caller is a guest and can change nothing: the right is one to see something, or the caller
does not have it as an administrator. -/
def isPowerless (r : Request) : Bool :=
  r.caller.anonymous && r.operation.right?.any fun right =>
    right.isReading || !(r.caller.admin && right.comesWithAdministration)

end Request

def Event.isFromGuest : Event → Bool
  | .request r => r.isFromGuest
  | .authorize _ => false

def Event.isPowerless : Event → Bool
  | .request r => r.isPowerless
  | .authorize _ => false

/-- A guest has no right to change something but as an administrator. -/
theorem Right.isHeld_eq_false {a : Authority} {c : Caller} {right : Right}
    (hguest : c.anonymous = true) (hreads : right.isReading = false)
    (hadmin : (c.admin && right.comesWithAdministration) = false) : right.isHeld a c = false := by
  cases right with
  | login => simp [isHeld, hguest]
  | access table mode =>
      have hmode : mode ≠ .read := by
        rintro rfl
        cases hreads
      have hc : c.admin = false := by simpa [comesWithAdministration] using hadmin
      simp [isHeld, Authority.allows, hc, hguest, hmode]
  | administration => simpa [isHeld, comesWithAdministration] using hadmin

/-- Administrators have the rights that come with administration. -/
theorem Right.isHeld_of_admin {a : Authority} {c : Caller} {right : Right}
    (hcomes : right.comesWithAdministration = true) (hadmin : c.admin = true) :
    right.isHeld a c = true := by
  cases right with
  | login => cases hcomes
  | access table mode => simp [isHeld, Authority.allows, hadmin]
  | administration => exact hadmin

namespace Engine

variable {e : Engine} {r : Request}

/-- A request has no effect, and is refused if it is for more than to see something. -/
structure Ineffective (e : Engine) (r : Request) : Prop where
  engine : (e.perform r).2 = e
  refused : ∀ right, r.operation.right? = some right → right.isReading = false →
    ∃ error, (e.perform r).1 = .error error ∧ error.kind = .unauthorized

/-- **A guest who can change nothing has no effect.** -/
theorem ineffective_of_isPowerless (h : r.isPowerless = true) : e.Ineffective r := by
  obtain ⟨hguest, hright⟩ := Bool.and_eq_true_iff.1 h
  cases hr : r.operation.right? with
  | none =>
      rw [hr] at hright
      cases hright
  | some right =>
      rw [hr] at hright
      have hpowerless : (right.isReading ||
        !(r.caller.admin && right.comesWithAdministration)) = true := hright
      cases hreads : right.isReading with
      | true =>
          -- Who may see the table is answered, so there need be no refusal.
          refine ⟨perform_of_reads hr hreads, ?_⟩
          rintro _ hr' hreads'
          rw [← Option.some.inj (hr.symm.trans hr'), hreads] at hreads'
          cases hreads'
      | false =>
          rw [hreads, Bool.false_or, Bool.not_eq_true'] at hpowerless
          have hperform : e.perform r = (.error (right.refusal r.caller), e) :=
            perform_of_lacks hr (Right.isHeld_eq_false hguest hreads hpowerless)
          exact ⟨congrArg Prod.snd hperform,
            fun _ _ _ => ⟨_, congrArg Prod.fst hperform, right.kind_refusal r.caller⟩⟩

/-! ### Courses without guests -/

/-- Events are answered as if the engine had not changed on dropped ones. -/
theorem transcript_filter {dropped : Event → Bool}
    (h : ∀ v, dropped v = true → ∀ e : Engine, (e.handle v).2 = e) (vs : List Event) :
    e.transcript (vs.filter (fun v => !dropped v)) =
      (e.transcript vs).filter (fun p => !dropped p.1) := by
  induction vs generalizing e with
  | nil => rfl
  | cons v vs ih =>
      rw [transcript_cons]
      cases hv : dropped v with
      | true =>
          rw [List.filter_cons_of_neg (by simp [hv]), List.filter_cons_of_neg (by simp [hv]), ih,
            h v hv e]
      | false =>
          rw [List.filter_cons_of_pos (by simp [hv]), List.filter_cons_of_pos (by simp [hv]),
            transcript_cons, ih]

/-- Nobody else notices certain events: without them, and under other names, the others are answered as
they were. -/
def LeavesNoTrace (dropped : Event → Bool) : Prop :=
  ∀ (e : Engine) (ρ : Renaming) (vs : List Event),
    (e.restamp ρ.map).transcript ((vs.filter (fun v => !dropped v)).map ρ.event) =
      ((e.transcript vs).filter (fun p => !dropped p.1)).map
        (fun p => (ρ.event p.1, ρ.answer p.1 p.2))

/-- **Guests leave no trace.**  A guest changes nothing, but for what administrators may do in any case,
and is refused if it is for more than to see something; all such requests can be dropped from a course, and
everybody else gets the same answers.  Administrators have the other rights, and are answered alike whether
they are logged in or not. -/
theorem guests_leave_no_trace :
    (∀ (e : Engine) (r : Request), r.isPowerless = true → e.Ineffective r) ∧
      LeavesNoTrace Event.isPowerless ∧
      ∀ (e : Engine) (r : Request) (right : Right), r.operation.right? = some right →
        right.comesWithAdministration = true → r.caller.admin = true →
        right.isHeld e.authority r.caller = true ∧ ∀ anonymous,
          e.perform { r with caller := { r.caller with anonymous } } = e.perform r := by
  refine ⟨fun e r => ineffective_of_isPowerless, ?_, ?_⟩
  · intro e ρ vs
    have hkept : ∀ v : Event, v.isPowerless = true → ∀ e : Engine, (e.handle v).2 = e := by
      intro v hv e
      cases v with
      | request r => exact (ineffective_of_isPowerless hv).engine
      | authorize authority => cases hv
    rw [transcript_renamed, transcript_filter hkept]
  · intro e r right hr hcomes hadmin
    exact ⟨Right.isHeld_of_admin hcomes hadmin, perform_of_administrator hr hcomes hadmin⟩

end Engine

namespace Sample

def sameNames : Renaming := ⟨id, Function.injective_id, rfl⟩

def visit (operation : Operation) : Request := ⟨.guest, .unbound, 0, operation⟩

/-- A guest wants to make a column and to commit a row, then a row is committed. -/
def visits : List Event :=
  [.request (visit (.createColumn number)),
    .request { submit [.new [some "y"]] with caller := .guest },
    .request (submit [.new [some "x"]])]

def clearance : Request := ⟨.administrator 7, .unbound, 0, .truncate⟩

/-- A column is made, everything is removed by an administrator who is not logged in, and the column is
looked up. -/
def removal : List Event :=
  [.request (arrange .unbound (.createColumn number)),
    .request ⟨{ userId := 7, anonymous := true, admin := true }, .unbound, 0, .truncate⟩,
    .request (arrange .unbound (.column number.id))]

end Sample

namespace Engine

/-- The guest is refused, and the row has the first id, as it has if no guest was there.  An administrator
removes everything without being logged in. -/
theorem guests_leave_no_trace_two_visits :
    Request.isPowerless (Sample.visit (.createColumn Sample.number)) = true ∧
    Ineffective {} (Sample.visit (.createColumn Sample.number)) ∧
    (transcript {} Sample.visits).map (·.2) = [.error .loginRequired,
      .error (.accessDenied 0 .update Sample.table),
      .ok (.references ⟨Sample.table, 1, [Sample.column.id], [1]⟩)] ∧
    (transcript {} (Sample.visits.filter (fun v => !v.isPowerless))).map (·.2) =
      [.ok (.references ⟨Sample.table, 1, [Sample.column.id], [1]⟩)] ∧
    (restamp Sample.sameNames.map {}).transcript
        ((Sample.visits.filter (fun v => !v.isPowerless)).map Sample.sameNames.event) =
      ((transcript {} Sample.visits).filter (fun p => !p.1.isPowerless)).map
        (fun p => (Sample.sameNames.event p.1, Sample.sameNames.answer p.1 p.2)) ∧
    Engine.perform {} { Sample.clearance with caller := { userId := 7, anonymous := true, admin := true } } =
      Engine.perform {} Sample.clearance ∧
    (Engine.perform {} Sample.clearance).1 = .ok .done :=
  ⟨rfl, guests_leave_no_trace.1 _ _ rfl, rfl, rfl,
    guests_leave_no_trace.2.1 {} Sample.sameNames Sample.visits,
    (guests_leave_no_trace.2.2 {} Sample.clearance .administration rfl rfl rfl).2 true, rfl⟩

/-- Administrators who are not logged in leave a trace: they remove a column that is there without them,
which no other names make good. -/
theorem administrators_leave_trace :
    Sample.removal.map Event.isFromGuest = [false, true, false] ∧
    (transcript {} (Sample.removal.filter (fun v => !v.isFromGuest))).map (·.2) =
      [.ok (.column ⟨Sample.number.id, Sample.number⟩),
        .ok (.column ⟨Sample.number.id, Sample.number⟩)] ∧
    ((transcript {} Sample.removal).filter (fun p => !p.1.isFromGuest)).map (·.2) =
      [.ok (.column ⟨Sample.number.id, Sample.number⟩),
        .error (.unknownColumn Sample.number.id)] ∧
    (∀ ρ : Renaming,
      (restamp ρ.map {}).transcript
          ((Sample.removal.filter (fun v => !v.isFromGuest)).map ρ.event) ≠
        ((transcript {} Sample.removal).filter (fun p => !p.1.isFromGuest)).map
          (fun p => (ρ.event p.1, ρ.answer p.1 p.2))) ∧
    ¬ LeavesNoTrace Event.isFromGuest := by
  have hwithout : (transcript {} (Sample.removal.filter (fun v => !v.isFromGuest))).map (·.2) =
      [.ok (.column ⟨Sample.number.id, Sample.number⟩),
        .ok (.column ⟨Sample.number.id, Sample.number⟩)] := by decide +kernel
  have hwith : ((transcript {} Sample.removal).filter (fun p => !p.1.isFromGuest)).map (·.2) =
      [.ok (.column ⟨Sample.number.id, Sample.number⟩),
        .error (.unknownColumn Sample.number.id)] := by decide +kernel
  have hne : ∀ ρ : Renaming,
      (restamp ρ.map {}).transcript
          ((Sample.removal.filter (fun v => !v.isFromGuest)).map ρ.event) ≠
        ((transcript {} Sample.removal).filter (fun p => !p.1.isFromGuest)).map
          (fun p => (ρ.event p.1, ρ.answer p.1 p.2)) := by
    intro ρ h
    rw [transcript_renamed] at h
    have hgranted := congrArg (List.map (fun p => p.2.isOk)) h
    rw [granted_renamed, granted_renamed, hwithout, hwith] at hgranted
    cases hgranted
  exact ⟨rfl, hwithout, hwith, hne, fun h => hne Sample.sameNames (h {} Sample.sameNames _)⟩

end Engine

end VersionedTables
