import Mathlib.Data.List.Induction
import VersionedTables.Proofs.Engine.Course

/-!
# What counts until it is taken back

Much of what an engine answers is about its course: something has happened, and it counts until it is
taken back.  What is kept of a table counts until the table is unbound, and nothing counts any longer when
an administrator has removed everything.

* **`Since`**, **`since_concat`** — something happened and was not taken back since.
* **`Event.removesAll`**, **`Event.forgets`** — what takes back.
-/

namespace VersionedTables

section

variable {α : Type} {P : List α → α → Prop} {q : α → Bool}

/-- Somewhere in a list there is an element that, with all the elements before it, satisfies `P`, and
behind it there is none that satisfies `q`. -/
def Since (P : List α → α → Prop) (q : α → Bool) (as : List α) : Prop :=
  ∃ us a rest, as = us ++ a :: rest ∧ P us a ∧ ∀ b ∈ rest, q b = false

theorem not_since_nil (P : List α → α → Prop) (q : α → Bool) : ¬Since P q [] := by
  rintro ⟨us, a, rest, hsplit, -⟩
  simp at hsplit

/-- Where nothing is taken back it is enough that there is such an element. -/
theorem since_iff_exists {P : α → Prop} {as : List α} (h : ∀ a ∈ as, q a = false) :
    Since (fun _ a => P a) q as ↔ ∃ a ∈ as, P a := by
  constructor
  · rintro ⟨us, a, rest, rfl, hp, -⟩
    exact ⟨a, List.mem_append_cons_self, hp⟩
  · rintro ⟨a, ha, hp⟩
    obtain ⟨us, rest, rfl⟩ := List.append_of_mem ha
    exact ⟨us, a, rest, rfl, hp, fun b hb => h b (by simp [hb])⟩

/-- With one element more, it is this element that satisfies `P`, or it takes nothing back. -/
theorem since_concat {as : List α} {b : α} :
    Since P q (as ++ [b]) ↔ P as b ∨ q b = false ∧ Since P q as := by
  constructor
  · rintro ⟨us, a, rest, hsplit, hp, hrest⟩
    rcases List.eq_nil_or_concat rest with rfl | ⟨rest, c, rfl⟩
    · obtain ⟨rfl, rfl⟩ := List.append_singleton_inj.1 hsplit
      exact Or.inl hp
    · rw [List.concat_eq_append, ← List.cons_append, ← List.append_assoc] at hsplit
      obtain ⟨rfl, rfl⟩ := List.append_singleton_inj.1 hsplit
      rw [List.concat_eq_append, List.forall_mem_append] at hrest
      exact Or.inr ⟨hrest.2 b (List.mem_singleton_self b), us, a, rest, rfl, hp, hrest.1⟩
  · rintro (hp | ⟨hb, us, a, rest, rfl, hp, hrest⟩)
    · exact ⟨as, b, [], rfl, hp, nofun⟩
    · refine ⟨us, a, rest ++ [b], by simp, hp, ?_⟩
      exact List.forall_mem_append.2 ⟨hrest, by simpa using hb⟩

end

/-! ### What takes back -/

def Event.removesAll : Event → Bool
  | .request r => r.operation = .truncate && r.caller.admin
  | .authorize _ => false

/-- What is kept of a table is forgotten: the table is unbound, or everything is removed. -/
def Event.forgets (table : TableId) : Event → Bool
  | .request r => r.operation = .unbind table || (Event.request r).removesAll
  | .authorize _ => false

end VersionedTables
