import VersionedTables.Error
import VersionedTables.Json.Format

/-!
# Pages

A listing is handed out in pages: a stretch of the items, and how many there are in all.

* **`Page`** — the type.
* **`Page.cut`** — a page of a list.
* **`Page.checkLimit`** — refuses pages that are too long.
-/

namespace VersionedTables

/-- A stretch of a listing. -/
structure Page (α : Type) where
  results : List α
  totalCount : UInt64
deriving DecidableEq

namespace Page

variable {α : Type}

def fieldNames : List String := ["results", "total_count"]

instance [JsonFormat α] : JsonFormat (Page α) where
  write p := .record (fieldNames.zip [JsonFormat.write p.results, .word p.totalCount])
  read? v := do
    let [results, totalCount] ← v.slots? fieldNames | none
    return ⟨← results.required?, ← totalCount.required?⟩

/-- At most `limit` items of `items`, from the one at `offset` on. -/
def cut (items : List α) (limit offset : UInt64) : Page α :=
  ⟨(items.drop offset.toNat).take limit.toNat, Bounded.ofNatSat items.length⟩

/-- Refuses a page that is to hold more than `max` items. -/
def checkLimit (max limit : UInt64) : Except Error Unit :=
  if max < limit then .error (.pageTooLong max) else .ok ()

end Page

end VersionedTables
