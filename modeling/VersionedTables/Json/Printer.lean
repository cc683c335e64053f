import VersionedTables.Json.Basic

/-!
# Written documents

A document is written token by token.  What stands between the tokens is space, and a layout says how much
of it; so all layouts of a document are read alike.

* **`Json.Layout`** — the space between tokens.
* **`Json.compact`** — no space at all.
* **`Json.pretty`** — one item or member a line, indented by two spaces a level.
-/

namespace VersionedTables

namespace Json

/-- How the tokens of a document are set apart. -/
structure Layout where
  newLine : Nat → List Char
  gap : List Char
  newLine_isSpace : ∀ n, ∀ c ∈ newLine n, isSpace c = true
  gap_isSpace : ∀ c ∈ gap, isSpace c = true

namespace Layout

def compact : Layout := ⟨fun _ => [], [], by simp, by simp⟩

/-- New lines are indented by two spaces a level, and a space stands behind a colon. -/
def pretty : Layout where
  newLine n := '\n' :: List.replicate (2 * n) ' '
  gap := [' ']
  newLine_isSpace n c hc := by
    rcases List.mem_cons.1 hc with rfl | hc
    · rfl
    · rw [List.eq_of_mem_replicate hc]
      rfl
  gap_isSpace c hc := by
    rw [List.mem_singleton.1 hc]
    rfl

end Layout

mutual

/-- The characters of a document that stands at level `n`. -/
def chars (l : Layout) (n : Nat) : Json → List Char
  | .null => "null".toList
  | .bool true => "true".toList
  | .bool false => "false".toList
  | .number token => token
  | .string token => '"' :: token ++ ['"']
  | .array [] => ['[', ']']
  | .array (v :: vs) => '[' :: (l.newLine (n + 1) ++ (chars l (n + 1) v ++ itemChars l n vs))
  | .object [] => ['\x7b', '\x7d']
  | .object ((k, v) :: ms) =>
      '\x7b' :: (l.newLine (n + 1) ++ '"' :: (k ++ '"' :: ':' ::
        (l.gap ++ (chars l (n + 1) v ++ memberChars l n ms))))

/-- The items behind the first one, up to the closing bracket at level `n`. -/
def itemChars (l : Layout) (n : Nat) : List Json → List Char
  | [] => l.newLine n ++ [']']
  | v :: vs => ',' :: (l.newLine (n + 1) ++ (chars l (n + 1) v ++ itemChars l n vs))

/-- The members behind the first one, up to the closing brace at level `n`. -/
def memberChars (l : Layout) (n : Nat) : List (List Char × Json) → List Char
  | [] => l.newLine n ++ ['\x7d']
  | (k, v) :: ms =>
      ',' :: (l.newLine (n + 1) ++ '"' :: (k ++ '"' :: ':' ::
        (l.gap ++ (chars l (n + 1) v ++ memberChars l n ms))))

end

/-- The text of a document, without spaces. -/
def compact (v : Json) : String := String.ofList (v.chars .compact 0)

/-- The text of a document, one item or member a line. -/
def pretty (v : Json) : String := String.ofList (v.chars .pretty 0)

end Json

end VersionedTables
