import VersionedTables.Proofs.Outcome

/-!
# Actions on one place

A state holds something in every place, and an action reads and writes what is held in one place only.
Then all other places stay as they are, and what is answered, and what is held in the place then, depends
on what was held there before.  Actions that are put together from such actions are of this kind again,
and two of them on different places may change places.

* **`Local`** — an action on one place.
* **`Action.query`**, **`Action.attempt`**, **`Action.andThen`** — how actions are put together,
  **`Local.andThen`** — what is put together from actions on a place is one.
* **`Local.commute`** — actions on different places may change places.
-/

namespace VersionedTables

/-! ### Actions -/

namespace Action

section

variable {σ ε α β : Type}

/-- Looks something up, and leaves the state as it is. -/
def query (q : σ → Except ε α) (s : σ) : Except ε α × σ := (q s, s)

/-- Does something that leaves the state as it is when refused. -/
def attempt (f : σ → Except ε (α × σ)) (s : σ) : Except ε α × σ :=
  match f s with
  | .error e => (.error e, s)
  | .ok (a, s') => (.ok a, s')

/-- One action, and another one if the first is not refused. -/
def andThen (f : σ → Except ε α × σ) (g : α → σ → Except ε β × σ) (s : σ) : Except ε β × σ :=
  match f s with
  | (.error e, s) => (.error e, s)
  | (.ok a, s) => g a s

end

end Action

/-- The action `f` reads and writes only what a state holds in one place. -/
structure Local {σ ι ν α : Type} (view : σ → ι → ν) (place : ι) (f : σ → α × σ) : Prop where
  frame : ∀ s i, i ≠ place → view (f s).2 i = view s i
  /-- The answer, and what is held in the place then, depend on what was held there before. -/
  same : ∀ s s', view s' place = view s place →
    (f s').1 = (f s).1 ∧ view (f s').2 place = view (f s).2 place

namespace Local

variable {σ ι ν ε α β : Type} {view : σ → ι → ν} {place : ι}

theorem query {q : σ → Except ε α} (h : ∀ s s', view s' place = view s place → q s' = q s) :
    Local view place (Action.query q) :=
  ⟨fun _ _ _ => rfl, fun s s' heq => ⟨h s s' heq, heq⟩⟩

/-- An action with the answer put in another form. -/
theorem map {f : σ → α × σ} (h : Local view place f) (g : α → β) :
    Local view place (fun s => (g (f s).1, (f s).2)) := by
  refine ⟨h.frame, ?_⟩
  intro s s' heq
  obtain ⟨hanswer, hheld⟩ := h.same s s' heq
  exact ⟨congrArg g hanswer, hheld⟩

/-- An action that looks something up first and then does what it has seen. -/
theorem read {q : σ → β} {f : β → σ → α × σ}
    (hq : ∀ s s', view s' place = view s place → q s' = q s) (hf : ∀ b, Local view place (f b)) :
    Local view place (fun s => f (q s) s) := by
  refine ⟨fun s => (hf (q s)).frame s, ?_⟩
  intro s s' h
  rw [hq s s' h]
  exact (hf (q s)).same s s' h

theorem attempt {f : σ → Except ε (α × σ)}
    (frame : ∀ s a s', f s = .ok (a, s') → ∀ i, i ≠ place → view s' i = view s i)
    (agree : ∀ s s', view s' place = view s place →
      Outcome.Agree (fun p p' => p'.1 = p.1 ∧ view p'.2 place = view p.2 place) (f s) (f s')) :
    Local view place (Action.attempt f) := by
  constructor
  · intro s i hi
    unfold Action.attempt
    cases hf : f s with
    | error e => rfl
    | ok p => exact frame s p.1 p.2 hf i hi
  · intro s s' h
    have hagree := agree s s' h
    unfold Action.attempt
    generalize f s = outcome at hagree ⊢
    generalize f s' = outcome' at hagree ⊢
    cases hagree with
    | error e => exact ⟨rfl, h⟩
    | ok hp => exact ⟨congrArg Except.ok hp.1, hp.2⟩

/-- What is put together from actions on a place is an action on the place. -/
theorem andThen {f : σ → Except ε α × σ} {g : α → σ → Except ε β × σ} (hf : Local view place f)
    (hg : ∀ s a, (f s).1 = .ok a → Local view place (g a)) :
    Local view place (Action.andThen f g) := by
  constructor
  · intro s i hi
    have hframe := hf.frame s i hi
    have hrest := hg s
    unfold Action.andThen
    generalize f s = settled at hframe hrest ⊢
    obtain ⟨outcome, s₁⟩ := settled
    cases outcome with
    | error e => exact hframe
    | ok a => exact ((hrest a rfl).frame s₁ i hi).trans hframe
  · intro s s' h
    obtain ⟨hanswer, hheld⟩ := hf.same s s' h
    have hrest := hg s
    unfold Action.andThen
    generalize f s = settled at hanswer hheld hrest ⊢
    generalize f s' = settled' at hanswer hheld ⊢
    obtain ⟨outcome, s₁⟩ := settled
    obtain ⟨outcome', s₁'⟩ := settled'
    cases hanswer
    cases outcome with
    | error e => exact ⟨rfl, hheld⟩
    | ok a => exact (hrest a rfl).same s₁ s₁' hheld

end Local

/-! ### Two actions -/

/-- In the state `s` the action `f'` does what `f` does, but for a renaming of the answer and of what is
held in the place. -/
structure Renames {σ ι ν α : Type} (view : σ → ι → ν) (place : ι) (answer : α → α) (held : ν → ν)
    (s : σ) (f f' : σ → α × σ) : Prop where
  answer : (f' s).1 = answer (f s).1
  held : view (f' s).2 place = held (view (f s).2 place)

/-- **Actions on different places may change places**: in either order they give the same answers, and
leave the same in all places, up to a renaming that leaves what was there before as it is. -/
theorem Local.commute {σ ι ν α β : Type} [DecidableEq ι] {view : σ → ι → ν} {i j : ι} (hij : i ≠ j)
    {f f' : σ → α × σ} {g g' : σ → β × σ} (hf : Local view i f) (hf' : Local view i f')
    (hg : Local view j g) (hg' : Local view j g') {answer : α → α} {answer' : β → β}
    {held : ν → ν} {s : σ} (hrf : Renames view i answer held s f f')
    (hrg : Renames view j answer' held s g g') (hkept : ∀ k, held (view s k) = view s k) :
    (f' (g' s).2).1 = answer (f s).1 ∧ (g' s).1 = answer' (g (f s).2).1 ∧
      ∀ k, view (f' (g' s).2).2 k = held (view (g (f s).2).2 k) := by
  have hreadsF : view (g' s).2 i = view s i := hg'.frame s i hij
  have hreadsG : view (f s).2 j = view s j := hf.frame s j hij.symm
  refine ⟨?_, ?_, ?_⟩
  · rw [(hf'.same s _ hreadsF).1]
    exact hrf.answer
  · rw [(hg.same s _ hreadsG).1]
    exact hrg.answer
  · intro k
    by_cases hki : k = i
    · subst hki
      rw [(hf'.same s _ hreadsF).2, hrf.held, hg.frame (f s).2 k hij]
    · rw [hf'.frame (g' s).2 k hki]
      by_cases hkj : k = j
      · subst hkj
        rw [(hg.same s _ hreadsG).2]
        exact hrg.held
      · rw [hg'.frame s k hkj, hg.frame (f s).2 k hkj, hf.frame s k hki, hkept]

end VersionedTables
