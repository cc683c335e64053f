import VersionedTables.Proofs.Engine.Course

/-!
# Reading a listing page after page

A listing is handed out in pages, and each page tells how many items there are in all.  Whoever asks for one
page after the other, each time further on by the size of a page, and stops when that reaches the number of
all items, has read every item once and in order.

* **`Page.offsets`**, **`Page.flatMap_take_drop`** — where the pages begin, and what they are together.
* **`Engine.HandsOut`** — an engine hands out the pages of a listing.
* **`Engine.HandsOut.reads_all`** — the pages that are asked for one after the other are the listing.
-/

namespace VersionedTables

namespace Page

variable {α : Type}

/-- Where pages of `limit` items begin: the offsets `0`, `limit`, `2 * limit` and so on that lie below
`total`. -/
def offsets (total limit : Nat) : List Nat := (List.range total).filter (limit ∣ ·)

/-- **The pages together are the listing.** -/
theorem flatMap_take_drop (items : List α) {limit : Nat} (hlimit : 0 < limit) :
    (offsets items.length limit).flatMap (fun o => (items.drop o).take limit) = items := by
  -- The pages that begin below `n` are the items up to the first multiple of the limit from `n` on.
  have htake : ∀ n m, limit ∣ m → n ≤ m → m < n + limit →
      (offsets n limit).flatMap (fun o => (items.drop o).take limit) = items.take m := by
    intro n
    induction n with
    | zero =>
        intro m hdvd _ hm
        rw [Nat.eq_zero_of_dvd_of_lt hdvd (by omega)]
        rfl
    | succ n ih =>
        intro m hdvd hn hm
        have hoffsets : offsets (n + 1) limit =
            offsets n limit ++ if limit ∣ n then [n] else [] := by
          unfold offsets
          rw [List.range_succ, List.filter_append, List.filter_singleton]
          split <;> simp [*]
        rw [hoffsets, List.flatMap_append]
        by_cases hpage : limit ∣ n
        · have hm : m = n + limit := by
            have hle : limit ≤ m - n := Nat.le_of_dvd (by omega) (Nat.dvd_sub hdvd hpage)
            omega
          rw [ih n hpage (le_refl n) (by omega), if_pos hpage, hm, List.take_add]
          simp
        · have hne : m ≠ n + limit := by
            rintro rfl
            exact hpage ((Nat.dvd_add_left (dvd_refl limit)).1 hdvd)
          rw [ih m hdvd (by omega) (by omega), if_neg hpage]
          simp
  have hup := Nat.div_add_mod (items.length + limit - 1) limit
  have hrest := Nat.mod_lt (items.length + limit - 1) hlimit
  rw [htake items.length _ (Nat.dvd_mul_right limit ((items.length + limit - 1) / limit)) (by omega)
    (by omega)]
  exact List.take_of_length_le (by omega)

theorem lt_of_mem_offsets {total limit o : Nat} (h : o ∈ offsets total limit) : o < total :=
  List.mem_range.1 (List.mem_filter.1 h).1

theorem toNat_offset {o : Nat} {items : List α} (ho : o < items.length)
    (hcount : items.length ≤ Bounded.greatest) : (UInt64.ofNat o).toNat = o := by
  refine UInt64.toNat_ofNat_of_lt ?_
  unfold Bounded.greatest at hcount
  omega

end Page

namespace Engine

variable {α : Type} {e : Engine} {ask : UInt64 → UInt64 → Operation} {answer : Page α → Answer}
  {items : List α}

/-- Whoever asks for a part of a listing is handed out the `limit` items from the one at `offset` on, as far
as there are so many, and their number in all.  Only a page that is too long is refused.  The engine stays as
it is. -/
def HandsOut (e : Engine) (ask : UInt64 → UInt64 → Operation) (answer : Page α → Answer)
    (items : List α) : Prop :=
  ∀ r limit offset, r.operation = ask limit offset →
    e.perform r = (if e.settings.maxPageSize < limit then
      .error (.pageTooLong e.settings.maxPageSize)
      else .ok (answer ⟨(items.drop offset.toNat).take limit.toNat,
        Bounded.ofNatSat items.length⟩), e)

/-- A first page that is not full shows all items. -/
theorem HandsOut.eq_of_short_page (h : e.HandsOut ask answer items) (hanswer : answer.Injective)
    {r : Request} {limit : UInt64} {page : Page α} (hr : r.operation = ask limit 0)
    (hpage : (e.perform r).1 = .ok (answer page)) (hshort : page.results.length < limit.toNat) :
    items = page.results ∧ e.perform r = (.ok (answer page), e) := by
  have hperform := h r limit 0 hr
  rw [hperform] at hpage
  split at hpage
  · cases hpage
  · next hlimit =>
      rw [if_neg hlimit] at hperform
      obtain rfl := hanswer (Except.ok.inj hpage)
      have hlength : items.length < limit.toNat := by
        simpa using hshort
      exact ⟨(List.take_of_length_le hlength.le).symm, hperform⟩

/-- The items are read, each once and in order, by whoever asks for pages of some size one after the other,
from the offset `0` on until the offset reaches the number of all items.  Every page tells that number. -/
def ReadsAll (e : Engine) (ask : UInt64 → UInt64 → Operation) (answer : Page α → Answer)
    (items : List α) : Prop :=
  ∀ limit rs, 1 ≤ limit → limit ≤ e.settings.maxPageSize →
    rs.map Request.operation =
      (Page.offsets items.length limit.toNat).map (fun o => ask limit (UInt64.ofNat o)) →
    ∃ pages : List (Page α), e.run rs = (pages.map (fun p => .ok (answer p)), e) ∧
      pages.flatMap (·.results) = items ∧ ∀ p ∈ pages, p.totalCount.toNat = items.length

/-- Requests that leave the engine as it is are answered each as if it were the first. -/
theorem run_map {ι : Type} {is : List ι} {operation : ι → Operation} {answers : ι → Answer}
    (h : ∀ i ∈ is, ∀ r, r.operation = operation i → e.perform r = (.ok (answers i), e))
    {rs : List Request} (hrs : rs.map Request.operation = is.map operation) :
    e.run rs = (is.map (fun i => .ok (answers i)), e) := by
  induction is generalizing rs with
  | nil =>
      rw [List.map_nil, List.map_eq_nil_iff] at hrs
      rw [hrs]
      rfl
  | cons i is ih =>
      obtain ⟨r, rs, rfl, hr, hrest⟩ := List.map_eq_cons_iff.1 hrs
      obtain ⟨hi, his⟩ := List.forall_mem_cons.1 h
      rw [run, hi r hr]
      show (_ :: (e.run rs).1, (e.run rs).2) = _
      rw [ih his hrest]
      rfl

/-- **The pages that are asked for one after the other are the listing**, if 64 bits can tell how long it
is. -/
theorem HandsOut.reads_all (h : e.HandsOut ask answer items)
    (hcount : items.length ≤ Bounded.greatest) : e.ReadsAll ask answer items := by
  intro limit rs hlimit hmax hrs
  have hpositive : 0 < limit.toNat :=
    Nat.lt_of_lt_of_le Nat.zero_lt_one (UInt64.le_iff_toNat_le.1 hlimit)
  refine ⟨(Page.offsets items.length limit.toNat).map (fun o =>
    ⟨(items.drop (UInt64.ofNat o).toNat).take limit.toNat, Bounded.ofNatSat items.length⟩), ?_, ?_, ?_⟩
  · rw [List.map_map]
    refine run_map (fun o _ r hr => ?_) hrs
    rw [h r limit _ hr, if_neg (UInt64.not_lt.2 hmax)]
  · rw [List.flatMap_map]
    conv => rhs; rw [← Page.flatMap_take_drop items hpositive]
    refine List.flatMap_congr (fun o ho => ?_)
    show (items.drop (UInt64.ofNat o).toNat).take limit.toNat = _
    rw [Page.toNat_offset (Page.lt_of_mem_offsets ho) hcount]
  · intro p hp
    obtain ⟨o, ho, rfl⟩ := List.mem_map.1 hp
    exact (Bounded.toNat_ofNatSat _).trans (Nat.min_eq_left hcount)

end Engine

end VersionedTables
