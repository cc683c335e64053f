import VersionedTables.Error

/-!
# When a chain of checks succeeds

An operation that runs in steps succeeds when every step does.

* **`Outcome.bind_eq_ok_iff`** — two steps, one after the other.
* **`Outcome.forM_eq_ok_iff`** — the same step for every member of a list.
* **`Outcome.exists_mapM_eq_ok`**, **`Outcome.mapM_eq_ok_iff`** — the same step with a result.
* **`Outcome.exists_of_mapM_eq_error`** — where such steps fail.
* **`Outcome.FailsOnly`** — which errors a chain of steps can end in.
* **`Outcome.Agree`** — two chains of steps that end alike.
-/

namespace VersionedTables

namespace Outcome

variable {ε α β : Type}

@[simp] theorem ok_bind (a : α) (f : α → Except ε β) : (.ok a >>= f) = f a := rfl

theorem bind_eq_ok_iff {x : Except ε α} {f : α → Except ε β} {b : β} :
    (x >>= f) = .ok b ↔ ∃ a, x = .ok a ∧ f a = .ok b := by
  cases x with
  | error e =>
      constructor
      · intro h
        cases h
      · intro h
        obtain ⟨a, h, -⟩ := h
        cases h
  | ok a =>
      constructor
      · intro h
        exact ⟨a, rfl, h⟩
      · intro h
        obtain ⟨a', h, hf⟩ := h
        cases h
        exact hf

/-- A check that goes before another one. -/
theorem check_bind_eq_ok_iff {x y : Except ε Unit} :
    (x >>= fun _ => y) = .ok () ↔ x = .ok () ∧ y = .ok () := by
  rw [bind_eq_ok_iff]
  constructor
  · intro h
    obtain ⟨⟨⟩, hx, hy⟩ := h
    exact ⟨hx, hy⟩
  · intro h
    obtain ⟨hx, hy⟩ := h
    exact ⟨(), hx, hy⟩

/-- What is done to the result of the second step is done to the result of both. -/
theorem bind_map {γ : Type} {x : Except ε α} {k : α → Except ε β} {k' : α → Except ε γ} {g : β → γ}
    (h : ∀ a, k' a = (k a).map g) : (x >>= k') = (x >>= k).map g := by
  cases x with
  | error e => rfl
  | ok a => exact h a

theorem map_eq_ok_iff {x : Except ε α} {f : α → β} {b : β} :
    x.map f = .ok b ↔ ∃ a, x = .ok a ∧ f a = b := by
  cases x with
  | error e =>
      constructor
      · intro h
        cases h
      · intro h
        obtain ⟨a, h, -⟩ := h
        cases h
  | ok a =>
      simp only [Except.map, Except.ok.injEq, exists_eq_left']

/-- A check of every member of a list. -/
theorem forM_eq_ok_iff {f : α → Except ε Unit} {as : List α} :
    as.forM f = .ok () ↔ ∀ a ∈ as, f a = .ok () := by
  induction as with
  | nil => simp [pure, Except.pure]
  | cons a as ih =>
      rw [List.forM_eq_forM, List.forM_cons, check_bind_eq_ok_iff, ← List.forM_eq_forM, ih,
        List.forall_mem_cons]

/-- A step for every member of a list succeeds with one result for each. -/
theorem map_eq_of_mapM_eq_ok {f : α → Except ε β} {g : α → Option β}
    (hg : ∀ a b, f a = .ok b → g a = some b) {as : List α} {bs : List β}
    (h : as.mapM f = .ok bs) : as.map g = bs.map some := by
  induction as generalizing bs with
  | nil =>
      rw [List.mapM_nil] at h
      cases h
      rfl
  | cons a as ih =>
      rw [List.mapM_cons] at h
      obtain ⟨b, hb, h⟩ := bind_eq_ok_iff.1 h
      obtain ⟨bs', hbs', h⟩ := bind_eq_ok_iff.1 h
      cases h
      rw [List.map_cons, List.map_cons, hg a b hb, ih hbs']

theorem exists_mapM_eq_ok {f : α → Except ε β} {as : List α} (h : ∀ a ∈ as, ∃ b, f a = .ok b) :
    ∃ bs, as.mapM f = .ok bs := by
  induction as with
  | nil => exact ⟨[], List.mapM_nil⟩
  | cons a as ih =>
      obtain ⟨⟨b, hb⟩, hrest⟩ := List.forall_mem_cons.1 h
      obtain ⟨bs, hbs⟩ := ih hrest
      refine ⟨b :: bs, ?_⟩
      rw [List.mapM_cons, hb, hbs]
      rfl

/-- A step for every member of a list fails at the first member where it does. -/
theorem exists_of_mapM_eq_error {f : α → Except ε β} {as : List α} {e : ε}
    (h : as.mapM f = .error e) :
    ∃ done a rest, as = done ++ a :: rest ∧ f a = .error e ∧ ∀ b ∈ done, ∃ c, f b = .ok c := by
  induction as with
  | nil =>
      rw [List.mapM_nil] at h
      cases h
  | cons a as ih =>
      rw [List.mapM_cons] at h
      cases ha : f a with
      | error e' =>
          rw [ha] at h
          cases h
          exact ⟨[], a, as, rfl, ha, nofun⟩
      | ok b =>
          rw [ha, ok_bind] at h
          cases has : as.mapM f with
          | ok bs =>
              rw [has] at h
              cases h
          | error e' =>
              rw [has] at h
              cases h
              obtain ⟨done, a', rest, rfl, ha', hdone⟩ := ih has
              exact ⟨a :: done, a', rest, rfl, ha', List.forall_mem_cons.2 ⟨⟨b, ha⟩, hdone⟩⟩

/-- Every result is the result of a step. -/
theorem exists_of_mem_of_mapM_eq_ok {f : α → Except ε β} {as : List α} {bs : List β}
    (h : as.mapM f = .ok bs) {b : β} (hb : b ∈ bs) : ∃ a ∈ as, f a = .ok b := by
  induction as generalizing bs with
  | nil =>
      rw [List.mapM_nil] at h
      cases h
      cases hb
  | cons a as ih =>
      rw [List.mapM_cons] at h
      obtain ⟨b', hb', h⟩ := bind_eq_ok_iff.1 h
      obtain ⟨bs', hbs', h⟩ := bind_eq_ok_iff.1 h
      cases h
      rcases List.mem_cons.1 hb with rfl | hb
      · exact ⟨a, List.mem_cons_self, hb'⟩
      · obtain ⟨a', ha', hfa'⟩ := ih hbs' hb
        exact ⟨a', List.mem_cons_of_mem a ha', hfa'⟩

/-- What the results of a list were got from, where each result tells. -/
theorem map_of_map_eq_some {f : α → Option β} {g : β → α} (hg : ∀ a b, f a = some b → g b = a)
    {as : List α} {bs : List β} (h : as.map f = bs.map some) : bs.map g = as := by
  induction as generalizing bs with
  | nil => rw [List.map_eq_nil_iff.1 h.symm, List.map_nil]
  | cons a as ih =>
      cases bs with
      | nil => cases h
      | cons b bs =>
          obtain ⟨hb, hrest⟩ := List.cons.inj h
          rw [List.map_cons, hg a b hb, ih hrest]

/-- Every member of a list has its result. -/
theorem exists_eq_some_of_map_eq_some {f : α → Option β} {as : List α} {bs : List β}
    (h : as.map f = bs.map some) {a : α} (ha : a ∈ as) : ∃ b ∈ bs, f a = some b := by
  have hmem : f a ∈ bs.map some := h ▸ List.mem_map_of_mem ha
  obtain ⟨b, hb, he⟩ := List.mem_map.1 hmem
  exact ⟨b, hb, he.symm⟩

/-- A step for every member of a list succeeds if and only if every member has its result. -/
theorem mapM_eq_ok_iff {f : α → Except ε β} {g : α → Option β}
    (hg : ∀ a b, f a = .ok b ↔ g a = some b) {as : List α} {bs : List β} :
    as.mapM f = .ok bs ↔ as.map g = bs.map some := by
  constructor
  · exact map_eq_of_mapM_eq_ok (fun a b => (hg a b).1)
  · intro h
    have hall : ∀ a ∈ as, ∃ b, f a = .ok b := by
      intro a ha
      obtain ⟨b, -, hb⟩ := exists_eq_some_of_map_eq_some h ha
      exact ⟨b, (hg a b).2 hb⟩
    obtain ⟨bs', hok⟩ := exists_mapM_eq_ok hall
    have hsame := (map_eq_of_mapM_eq_ok (fun a b => (hg a b).1) hok).symm.trans h
    rw [hok, (List.map_inj_right (fun _ _ e => Option.some.inj e)).1 hsame]

/-- Every result of a list was got from a member. -/
theorem exists_of_mem_of_map_eq_some {f : α → Option β} {as : List α} {bs : List β}
    (h : as.map f = bs.map some) {b : β} (hb : b ∈ bs) : ∃ a ∈ as, f a = some b :=
  List.mem_map.1 (h ▸ List.mem_map_of_mem hb)

/-- What stands beside a result stands beside a member that it was got from. -/
theorem exists_mem_zip_of_mem_zip {γ : Type} {f : α → Option β} {as : List α} {bs : List β}
    {cs : List γ} (h : as.map f = bs.map some) {p : β × γ} (hp : p ∈ bs.zip cs) :
    ∃ a, (a, p.2) ∈ as.zip cs ∧ f a = some p.1 := by
  induction as generalizing bs cs with
  | nil =>
      cases bs with
      | nil => cases hp
      | cons b bs => cases h
  | cons a as ih =>
      cases bs with
      | nil => cases h
      | cons b bs =>
          obtain ⟨hab, hrest⟩ := List.cons.inj h
          cases cs with
          | nil => cases hp
          | cons c cs =>
              rcases List.mem_cons.1 hp with rfl | hp
              · exact ⟨a, List.mem_cons_self, hab⟩
              · obtain ⟨a', hmem, ha'⟩ := ih hrest hp
                exact ⟨a', List.mem_cons_of_mem _ hmem, ha'⟩

/-- What stands beside a member stands beside its result. -/
theorem exists_mem_zip_of_map_eq_some {γ : Type} {f : α → Option β} {as : List α} {bs : List β}
    {cs : List γ} (h : as.map f = bs.map some) {p : α × γ} (hp : p ∈ as.zip cs) :
    ∃ b, (b, p.2) ∈ bs.zip cs ∧ f p.1 = some b := by
  induction as generalizing bs cs with
  | nil => cases hp
  | cons a as ih =>
      cases bs with
      | nil => cases h
      | cons b bs =>
          obtain ⟨hab, hrest⟩ := List.cons.inj h
          cases cs with
          | nil => cases hp
          | cons c cs =>
              rcases List.mem_cons.1 hp with rfl | hp
              · exact ⟨b, List.mem_cons_self, hab⟩
              · obtain ⟨b', hmem, hb'⟩ := ih hrest hp
                exact ⟨b', List.mem_cons_of_mem _ hmem, hb'⟩

/-- Where every member has a result, they are the results of a step. -/
theorem map_eq_map_some_filterMap (f : α → Option β) (as : List α)
    (h : ∀ a ∈ as, (f a).isSome) : as.map f = (as.filterMap f).map some := by
  induction as with
  | nil => rfl
  | cons a as ih =>
      obtain ⟨ha, hrest⟩ := List.forall_mem_cons.1 h
      obtain ⟨b, hb⟩ := Option.isSome_iff_exists.1 ha
      rw [List.map_cons, List.filterMap_cons_some hb, List.map_cons, hb, ih hrest]

/-- A refusal that goes before the rest. -/
theorem throw_bind_eq_ok_iff {p : Prop} [Decidable p] {e : ε} {f : PUnit → Except ε β} {b : β} :
    (if p then throw e >>= f else f ()) = .ok b ↔ ¬p ∧ f () = .ok b := by
  split
  · next h => simp [h, throw, throwThe, MonadExceptOf.throw, bind, Except.bind]
  · next h => simp [h]

/-- A check of one condition. -/
theorem guard_eq_ok_iff {p : Prop} [Decidable p] {e : ε} :
    (if p then (.ok () : Except ε Unit) else .error e) = .ok () ↔ p := by
  split
  · next h => simp [h]
  · next h => simp [h]

/-! ### Errors -/

def FailsOnly (p : ε → Prop) (x : Except ε α) : Prop := ∀ e, x = .error e → p e

section

variable {p : ε → Prop}

theorem failsOnly_ok (a : α) : FailsOnly p (.ok a : Except ε α) := by
  intro e h
  cases h

theorem failsOnly_error {e : ε} (h : p e) : FailsOnly p (.error e : Except ε α) := by
  intro e' h'
  cases h'
  exact h

theorem FailsOnly.bind {x : Except ε α} {f : α → Except ε β} (hx : FailsOnly p x)
    (hf : ∀ a, FailsOnly p (f a)) : FailsOnly p (x >>= f) := by
  cases x with
  | error e => exact failsOnly_error (hx e rfl)
  | ok a => exact hf a

theorem FailsOnly.map {x : Except ε α} {f : α → β} (hx : FailsOnly p x) :
    FailsOnly p (x.map f) := by
  cases x with
  | error e => exact failsOnly_error (hx e rfl)
  | ok a => exact failsOnly_ok (f a)

theorem FailsOnly.ite {c : Prop} [Decidable c] {x y : Except ε α} (hx : FailsOnly p x)
    (hy : FailsOnly p y) : FailsOnly p (if c then x else y) := by
  split
  · exact hx
  · exact hy

theorem FailsOnly.forM {f : α → Except ε Unit} (hf : ∀ a, FailsOnly p (f a)) (as : List α) :
    FailsOnly p (as.forM f) := by
  induction as with
  | nil => exact failsOnly_ok ()
  | cons a as ih => exact (hf a).bind (fun _ => ih)

theorem FailsOnly.mapM {f : α → Except ε β} (hf : ∀ a, FailsOnly p (f a)) (as : List α) :
    FailsOnly p (as.mapM f) := by
  induction as with
  | nil => exact failsOnly_ok []
  | cons a as ih =>
      rw [List.mapM_cons]
      exact (hf a).bind (fun b => ih.bind (fun bs => failsOnly_ok (b :: bs)))

end

/-! ### Two outcomes -/

/-- Both fail with the same error, or both succeed with results that are related. -/
inductive Agree (R : α → β → Prop) : Except ε α → Except ε β → Prop
  | ok {a : α} {b : β} (h : R a b) : Agree R (.ok a) (.ok b)
  | error (e : ε) : Agree R (.error e) (.error e)

/-- After a common step both go on alike. -/
theorem Agree.bind {γ δ : Type} {R : γ → δ → Prop} {f : α → Except ε γ} {g : α → Except ε δ}
    (x : Except ε α) (h : ∀ a, Agree R (f a) (g a)) : Agree R (x >>= f) (x >>= g) := by
  cases x with
  | error e => exact .error e
  | ok a => exact h a

/-- After steps that agree both go on alike. -/
theorem Agree.andThen {γ δ : Type} {R : α → β → Prop} {S : γ → δ → Prop} {x : Except ε α}
    {y : Except ε β} {f : α → Except ε γ} {g : β → Except ε δ} (hx : Agree R x y)
    (h : ∀ a b, R a b → Agree S (f a) (g b)) : Agree S (x >>= f) (y >>= g) := by
  cases hx with
  | error e => exact .error e
  | ok hab => exact h _ _ hab

theorem Agree.map {γ δ : Type} {R : α → β → Prop} {S : γ → δ → Prop} {x : Except ε α}
    {y : Except ε β} {f : α → γ} {g : β → δ} (hx : Agree R x y) (h : ∀ a b, R a b → S (f a) (g b)) :
    Agree S (x.map f) (y.map g) := by
  cases hx with
  | error e => exact .error e
  | ok hab => exact .ok (h _ _ hab)

end Outcome

end VersionedTables
