/-!
# Repeated members

* **`Repeats.first?`** — the first member of a list that stands in it before.
* **`Repeats.first?_eq_none_iff`** — there is none exactly when no member is repeated.
-/

namespace VersionedTables

namespace Repeats

variable {α : Type} [DecidableEq α]

/-- The first member of a list that is in `seen` or stands in the list before. -/
def firstAfter? (seen : List α) : List α → Option α
  | [] => none
  | a :: l => if a ∈ seen then some a else firstAfter? (a :: seen) l

/-- The first member of a list that stands in it before. -/
def first? (l : List α) : Option α := firstAfter? [] l

theorem firstAfter?_eq_none_iff {seen l : List α} :
    firstAfter? seen l = none ↔ l.Nodup ∧ ∀ a ∈ l, a ∉ seen := by
  induction l generalizing seen with
  | nil => simp [firstAfter?]
  | cons a l ih =>
      simp only [firstAfter?]
      split
      · next h => simp [h]
      · next h =>
          rw [ih]
          simp only [List.nodup_cons, List.mem_cons, not_or]
          grind

theorem first?_eq_none_iff {l : List α} : first? l = none ↔ l.Nodup := by
  simp [first?, firstAfter?_eq_none_iff]

end Repeats

end VersionedTables
