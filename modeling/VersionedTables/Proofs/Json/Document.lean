import VersionedTables.Json.Format
import VersionedTables.Proofs.Json.Quoted

/-!
# Written documents are read back

The documents that the library writes are made of texts, numbers and literals.  In every layout their text
is read back as the document it was written from, whatever stands behind it, as long as that cannot be
taken for a part of it.  Space is passed over wherever a layout may put it.

* **`Json.Canonical`** — the documents whose tokens are those of texts and numbers.
* **`Json.Stops`** — what may stand behind a document.
* **`Json.readsBack`** — a canonical document is split off the front of the input.
* **`Json.read?_compact`**, **`Json.read?_pretty`** — its texts are read back as the document.
-/

namespace VersionedTables

/-! ### Numbers -/

namespace Numeral

theorem isDigit_of_mem_ofNat {n : Nat} {c : Char} (h : c ∈ ofNat n) : c.isDigit = true :=
  Nat.isDigit_of_mem_toDigits (by decide) (by decide) h

theorem ofNat_ne_nil (n : Nat) : ofNat n ≠ [] := Nat.toDigits_ne_nil

theorem ofNat_zero : ofNat 0 = ['0'] := Nat.toDigits_zero 10

theorem head?_ofNat_append (n : Nat) (rest : List Char) :
    (ofNat n ++ rest).head? = (ofNat n).head? := by
  cases h : ofNat n with
  | nil => exact absurd h (ofNat_ne_nil n)
  | cons c cs => rfl

theorem digitChar_ne_zero : ∀ n < 10, n ≠ 0 → Nat.digitChar n ≠ '0' := by decide

/-- No zero leads, except in the numeral of zero. -/
theorem head?_ofNat {n : Nat} (hn : n ≠ 0) : (ofNat n).head? ≠ some '0' := by
  induction n using Nat.strongRecOn with
  | ind n ih =>
      by_cases h : n < 10
      · rw [ofNat, Nat.toDigits_of_lt_base h]
        simpa using digitChar_ne_zero n h hn
      · rw [ofNat, Nat.toDigits_of_base_le (by decide) (by omega)]
        intro he
        exact ih (n / 10) (by omega) (by omega) ((head?_ofNat_append _ _).symm.trans he)

end Numeral

namespace Json

/-! ### Space -/

/-- Space in front of the input is passed over. -/
theorem skipSpace_append {space : List Char} (h : ∀ c ∈ space, isSpace c = true) (s : List Char) :
    skipSpace (space ++ s) = skipSpace s := List.dropWhile_append_of_pos h

theorem skipSpace_cons {c : Char} {s : List Char} (h : isSpace c = false) :
    skipSpace (c :: s) = c :: s := by
  simp [skipSpace, h]

theorem value?_append {space : List Char} (h : ∀ c ∈ space, isSpace c = true) (fuel : Nat)
    (s : List Char) : value? fuel (space ++ s) = value? fuel s := by
  cases fuel with
  | zero => simp only [value?]
  | succ fuel => rw [value?, value?, skipSpace_append h]

theorem key?_append {space : List Char} (h : ∀ c ∈ space, isSpace c = true) (s : List Char) :
    key? (space ++ s) = key? s := by
  rw [key?, key?, skipSpace_append h]

/-- What may stand behind a token: space, and what ends an item or a member. -/
def ends : List Char := [' ', '\n', '\t', '\x0d', ',', ']', '\x7d']

theorem mem_ends_of_isSpace {c : Char} (h : isSpace c = true) : c ∈ ends := by
  simp only [isSpace, Bool.or_eq_true, beq_iff_eq] at h
  rcases h with ((rfl | rfl) | rfl) | rfl <;> decide

/-- What may stand behind a document: nothing, or what may stand behind a token. -/
def Stops (rest : List Char) : Prop := ∀ c ∈ rest.head?, c ∈ ends

theorem stops_cons {c : Char} {rest : List Char} (h : c ∈ ends) : Stops (c :: rest) := by
  simpa [Stops] using h

theorem stops_append {space : List Char} (h : ∀ c ∈ space, isSpace c = true) {rest : List Char}
    (hr : Stops rest) : Stops (space ++ rest) := by
  cases space with
  | nil => exact hr
  | cons c space => exact stops_cons (mem_ends_of_isSpace (h c (by simp)))

theorem stops_of_isSpace {space : List Char} (h : ∀ c ∈ space, isSpace c = true) : Stops space := by
  have hnil : Stops [] := by simp [Stops]
  simpa using stops_append h hnil

/-! ### Numbers -/

theorem digits?_append {ds rest : List Char} (hd : ∀ c ∈ ds, c.isDigit = true) (hne : ds ≠ [])
    (hr : Stops rest) : digits? (ds ++ rest) = some (ds, rest) := by
  have hends : ∀ c ∈ ends, c.isDigit = false := by simp [ends]
  have hrest : ∀ c ∈ rest.head?, c.isDigit = false := fun c hc => hends c (hr c hc)
  have htake : (ds ++ rest).takeWhile Char.isDigit = ds := by
    rw [List.takeWhile_append_of_pos hd]
    cases rest with
    | nil => simp
    | cons c r => simp [hrest c (by simp)]
  have hdrop : (ds ++ rest).dropWhile Char.isDigit = rest := by
    rw [List.dropWhile_append_of_pos hd]
    cases rest with
    | nil => simp
    | cons c r => simp [hrest c (by simp)]
  simp [digits?, htake, hdrop, hne]

theorem whole?_ofNat (n : Nat) {rest : List Char} (hr : Stops rest) :
    whole? (Numeral.ofNat n ++ rest) = some (Numeral.ofNat n, rest) := by
  by_cases hn : n = 0
  · subst hn
    rw [Numeral.ofNat_zero]
    rfl
  · have hd := digits?_append (fun _ => Numeral.isDigit_of_mem_ofNat) (Numeral.ofNat_ne_nil n) hr
    have hz := Numeral.head?_ofNat hn
    unfold whole?
    split
    · next he =>
        have hh : (Numeral.ofNat n ++ rest).head? = some '0' := by rw [he]; rfl
        exact absurd ((Numeral.head?_ofNat_append n rest).symm.trans hh) hz
    · exact hd

theorem fraction?_stops {rest : List Char} (hr : Stops rest) : fraction? rest = some ([], rest) := by
  unfold fraction?
  split
  · exact absurd (hr '.' (by simp)) (by decide)
  · rfl

theorem exponent?_stops {rest : List Char} (hr : Stops rest) : exponent? rest = some ([], rest) := by
  unfold exponent?
  split
  · rfl
  · next c s =>
      have hends : ∀ c ∈ ends, ¬(c = 'e' ∨ c = 'E') := by simp [ends]
      exact if_neg (hends c (hr c (by simp)))

theorem magnitude?_ofNat (n : Nat) {rest : List Char} (hr : Stops rest) :
    magnitude? (Numeral.ofNat n ++ rest) = some (Numeral.ofNat n, rest) := by
  simp [magnitude?, whole?_ofNat n hr, fraction?_stops hr, exponent?_stops hr]

/-- A digit begins nothing but a number. -/
theorem digit_ne {c : Char} (h : c.isDigit = true) :
    c ≠ '-' ∧ c ≠ 'n' ∧ c ≠ 't' ∧ c ≠ 'f' ∧ c ≠ '"' ∧ c ≠ '[' ∧ c ≠ ']' ∧ c ≠ '\x7b' ∧
      isSpace c = false := by
  refine ⟨?_, ?_, ?_, ?_, ?_, ?_, ?_, ?_, ?_⟩
  case refine_9 =>
    simp only [isSpace, Bool.or_eq_false_iff, beq_eq_false_iff_ne]
    refine ⟨⟨⟨?_, ?_⟩, ?_⟩, ?_⟩ <;> rintro rfl <;> exact absurd h (by decide)
  all_goals
    rintro rfl
    exact absurd h (by decide)

theorem exists_ofNat_eq_cons (n : Nat) :
    ∃ c cs, Numeral.ofNat n = c :: cs ∧ c.isDigit = true := by
  cases h : Numeral.ofNat n with
  | nil => exact absurd h (Numeral.ofNat_ne_nil n)
  | cons c cs =>
      exact ⟨c, cs, rfl, Numeral.isDigit_of_mem_ofNat (n := n) (by rw [h]; simp)⟩

theorem scalar?_ofNat (n : Nat) {rest : List Char} (hr : Stops rest) :
    scalar? (Numeral.ofNat n ++ rest) = some (.number (Numeral.ofNat n), rest) := by
  have hm := magnitude?_ofNat n hr
  obtain ⟨c, cs, hcs, hc⟩ := exists_ofNat_eq_cons n
  obtain ⟨hminus, hn, ht, hf, -⟩ := digit_ne hc
  rw [hcs] at hm ⊢
  simp only [List.cons_append] at hm ⊢
  simp [scalar?, number?, hm, hminus, hn, ht, hf]

theorem naturalOfToken?_ofNat (n : Nat) : naturalOfToken? (Numeral.ofNat n) = some n := by
  have h : ¬ ((Numeral.ofNat n).head? = some '0' ∧ (Numeral.ofNat n).length ≠ 1) := by
    by_cases hn : n = 0
    · simp [hn, Numeral.ofNat_zero]
    · intro h
      exact Numeral.head?_ofNat hn h.1
  rw [naturalOfToken?, if_neg h, Numeral.natural?_ofNat]

theorem wordOfToken?_ofWord (n : UInt64) : wordOfToken? (Numeral.ofWord n) = some n := by
  rw [wordOfToken?, Numeral.ofWord, naturalOfToken?_ofNat, Option.bind_some, Numeral.ofNat?_toNat]

/-! ### Documents -/

/-- The documents whose tokens are those of texts and numbers. -/
inductive Canonical : Json → Prop where
  | null : Canonical .null
  | bool (b : Bool) : Canonical (.bool b)
  | number (n : Nat) : Canonical (.number (Numeral.ofNat n))
  | string (s : String) : Canonical (.string (Quoted.encode s))
  | array {vs : List Json} (h : ∀ v ∈ vs, Canonical v) : Canonical (.array vs)
  | object {ms : List (List Char × Json)} (hk : ∀ m ∈ ms, ∃ key, m.1 = Quoted.encode key)
      (h : ∀ m ∈ ms, Canonical m.2) : Canonical (.object ms)

/-- In every layout, with fuel for each of its characters, a document is split off the front of the
input. -/
def ReadsBack (v : Json) : Prop :=
  ∀ (l : Layout) (n fuel : Nat) (rest : List Char), (v.chars l n).length ≤ fuel → Stops rest →
    value? fuel (v.chars l n ++ rest) = some (v, rest)

theorem exists_fuel {n fuel : Nat} (hn : 0 < n) (h : n ≤ fuel) : ∃ m, fuel = m + 1 :=
  ⟨fuel - 1, by omega⟩

/-- The text of a canonical document begins with what begins a document. -/
theorem exists_chars_eq_cons {v : Json} (hv : v.Canonical) (l : Layout) (n : Nat) :
    ∃ c cs, v.chars l n = c :: cs ∧ isSpace c = false ∧ c ≠ ']' := by
  cases hv with
  | null => exact ⟨'n', _, rfl, rfl, by decide⟩
  | bool b =>
      cases b with
      | true => exact ⟨'t', _, rfl, rfl, by decide⟩
      | false => exact ⟨'f', _, rfl, rfl, by decide⟩
  | number n =>
      obtain ⟨c, cs, hcs, hc⟩ := exists_ofNat_eq_cons n
      obtain ⟨-, -, -, -, -, -, hb, -, hs⟩ := digit_ne hc
      exact ⟨c, cs, by rw [chars, hcs], hs, hb⟩
  | string s => exact ⟨'"', Quoted.encode s ++ ['"'], by rw [chars]; rfl, rfl, by decide⟩
  | @array vs h =>
      cases vs with
      | nil => exact ⟨'[', _, by rw [chars], rfl, by decide⟩
      | cons v vs => exact ⟨'[', _, by rw [chars], rfl, by decide⟩
  | @object ms hk h =>
      cases ms with
      | nil => exact ⟨'\x7b', _, by rw [chars], rfl, by decide⟩
      | cons m ms => exact ⟨'\x7b', _, by rw [chars], rfl, by decide⟩

theorem stops_itemChars (l : Layout) (n : Nat) (vs : List Json) (rest : List Char) :
    Stops (itemChars l n vs ++ rest) := by
  cases vs with
  | nil =>
      rw [itemChars, List.append_assoc]
      exact stops_append (l.newLine_isSpace n) (stops_cons (by decide))
  | cons v vs =>
      rw [itemChars]
      exact stops_cons (by decide)

theorem stops_memberChars (l : Layout) (n : Nat) (ms : List (List Char × Json)) (rest : List Char) :
    Stops (memberChars l n ms ++ rest) := by
  cases ms with
  | nil =>
      rw [memberChars, List.append_assoc]
      exact stops_append (l.newLine_isSpace n) (stops_cons (by decide))
  | cons m ms =>
      rw [memberChars]
      exact stops_cons (by decide)

/-! ### Scalars -/

theorem value?_scalar {c : Char} {cs rest : List Char} {v : Json} (fuel : Nat)
    (hs : isSpace c = false) (hc : c ≠ '"' ∧ c ≠ '[' ∧ c ≠ '\x7b')
    (h : scalar? (c :: cs) = some (v, rest)) : value? (fuel + 1) (c :: cs) = some (v, rest) := by
  simp [value?, skipSpace_cons hs, hc, h]

theorem readsBack_null : ReadsBack .null := by
  intro l n fuel rest hf hr
  obtain ⟨fuel, rfl⟩ := exists_fuel (by simp [chars]) hf
  exact value?_scalar fuel (c := 'n') rfl (by decide) rfl

theorem readsBack_bool (b : Bool) : ReadsBack (.bool b) := by
  intro l n fuel rest hf hr
  obtain ⟨fuel, rfl⟩ := exists_fuel (by cases b <;> simp [chars]) hf
  cases b with
  | true => exact value?_scalar fuel (c := 't') rfl (by decide) rfl
  | false => exact value?_scalar fuel (c := 'f') rfl (by decide) rfl

theorem readsBack_number (m : Nat) : ReadsBack (.number (Numeral.ofNat m)) := by
  intro l n fuel rest hf hr
  have hsc := scalar?_ofNat m hr
  obtain ⟨c, cs, hcs, hc⟩ := exists_ofNat_eq_cons m
  obtain ⟨-, -, -, -, hq, hb, -, ho, hs⟩ := digit_ne hc
  rw [chars, hcs] at hf
  rw [hcs] at hsc
  rw [chars, hcs]
  obtain ⟨fuel, rfl⟩ := exists_fuel (by simp) hf
  exact value?_scalar fuel hs ⟨hq, hb, ho⟩ hsc

theorem readsBack_string (s : String) : ReadsBack (.string (Quoted.encode s)) := by
  intro l n fuel rest hf hr
  rw [chars] at *
  obtain ⟨fuel, rfl⟩ := exists_fuel (by simp) hf
  simp [value?, skipSpace_cons (c := '"') rfl, Quoted.token?_encode]

/-! ### Lists and members -/

section

variable {vs : List Json} {ms : List (List Char × Json)}

theorem items?_itemChars (h : ∀ v ∈ vs, ReadsBack v) (l : Layout) (n fuel : Nat) (rest : List Char)
    (hf : (itemChars l n vs).length ≤ fuel) :
    items? fuel (itemChars l n vs ++ rest) = some (vs, rest) := by
  induction vs generalizing fuel with
  | nil =>
      rw [itemChars] at *
      obtain ⟨fuel, rfl⟩ := exists_fuel (by simp) hf
      rw [List.append_assoc, items?, skipSpace_append (l.newLine_isSpace n)]
      simp [skipSpace_cons (c := ']') rfl]
  | cons v vs ih =>
      rw [itemChars] at *
      obtain ⟨fuel, rfl⟩ := exists_fuel (by simp) hf
      simp only [List.cons_append, List.append_assoc, List.length_cons, List.length_append] at hf ⊢
      -- The comma costs one unit of fuel; the item and what follows get by with the rest.
      obtain ⟨hv, hvs⟩ := List.forall_mem_cons.1 h
      have hv := hv l (n + 1) fuel (itemChars l n vs ++ rest) (by omega) (stops_itemChars l n vs rest)
      have hvs := ih hvs fuel (by omega)
      simp [items?, skipSpace_cons (c := ',') rfl, value?_append (l.newLine_isSpace (n + 1)), hv, hvs]

theorem key?_encode (key : String) (rest : List Char) :
    key? ('"' :: (Quoted.encode key ++ '"' :: ':' :: rest)) = some (Quoted.encode key, rest) := by
  simp [key?, skipSpace_cons (c := '"') rfl, skipSpace_cons (c := ':') rfl, Quoted.token?_encode]

theorem members?_memberChars (hk : ∀ m ∈ ms, ∃ key, m.1 = Quoted.encode key)
    (h : ∀ m ∈ ms, ReadsBack m.2) (l : Layout) (n fuel : Nat) (rest : List Char)
    (hf : (memberChars l n ms).length ≤ fuel) :
    members? fuel (memberChars l n ms ++ rest) = some (ms, rest) := by
  induction ms generalizing fuel with
  | nil =>
      rw [memberChars] at *
      obtain ⟨fuel, rfl⟩ := exists_fuel (by simp) hf
      rw [List.append_assoc, members?, skipSpace_append (l.newLine_isSpace n)]
      simp [skipSpace_cons (c := '\x7d') rfl]
  | cons m ms ih =>
      obtain ⟨k, v⟩ := m
      obtain ⟨⟨key, rfl⟩, hks⟩ := List.forall_mem_cons.1 hk
      obtain ⟨hv, hms⟩ : v.ReadsBack ∧ ∀ m ∈ ms, ReadsBack m.2 := List.forall_mem_cons.1 h
      rw [memberChars] at *
      obtain ⟨fuel, rfl⟩ := exists_fuel (by simp) hf
      simp only [List.cons_append, List.append_assoc, List.length_cons, List.length_append] at hf ⊢
      have hv := hv l (n + 1) fuel (memberChars l n ms ++ rest) (by omega)
        (stops_memberChars l n ms rest)
      have hms := ih hks hms fuel (by omega)
      simp [members?, skipSpace_cons (c := ',') rfl, key?_append (l.newLine_isSpace (n + 1)),
        key?_encode, value?_append l.gap_isSpace, hv, hms]

theorem readsBack_array (hc : ∀ v ∈ vs, v.Canonical) (h : ∀ v ∈ vs, ReadsBack v) :
    ReadsBack (.array vs) := by
  intro l n fuel rest hf hr
  cases vs with
  | nil =>
      rw [chars] at *
      obtain ⟨fuel, rfl⟩ := exists_fuel (by simp) hf
      simp [value?, skipSpace_cons (c := '[') rfl, skipSpace_cons (c := ']') rfl]
  | cons v vs =>
      rw [chars] at *
      obtain ⟨fuel, rfl⟩ := exists_fuel (by simp) hf
      simp only [List.cons_append, List.append_assoc, List.length_cons, List.length_append] at hf ⊢
      obtain ⟨hv, hvs⟩ := List.forall_mem_cons.1 h
      have hv := hv l (n + 1) fuel (itemChars l n vs ++ rest) (by omega) (stops_itemChars l n vs rest)
      have hvs := items?_itemChars hvs l n fuel rest (by omega)
      obtain ⟨c, cs, hcs, hs, hb⟩ := exists_chars_eq_cons (hc v (by simp)) l (n + 1)
      rw [hcs] at hv ⊢
      simp only [List.cons_append] at hv ⊢
      simp [value?, skipSpace_cons (c := '[') rfl, skipSpace_append (l.newLine_isSpace (n + 1)),
        skipSpace_cons hs, hb, hv, hvs]

theorem readsBack_object (hk : ∀ m ∈ ms, ∃ key, m.1 = Quoted.encode key)
    (h : ∀ m ∈ ms, ReadsBack m.2) : ReadsBack (.object ms) := by
  intro l n fuel rest hf hr
  cases ms with
  | nil =>
      rw [chars] at *
      obtain ⟨fuel, rfl⟩ := exists_fuel (by simp) hf
      simp [value?, skipSpace_cons (c := '\x7b') rfl, skipSpace_cons (c := '\x7d') rfl]
  | cons m ms =>
      obtain ⟨k, v⟩ := m
      obtain ⟨⟨key, rfl⟩, hks⟩ := List.forall_mem_cons.1 hk
      obtain ⟨hv, hms⟩ : v.ReadsBack ∧ ∀ m ∈ ms, ReadsBack m.2 := List.forall_mem_cons.1 h
      rw [chars] at *
      obtain ⟨fuel, rfl⟩ := exists_fuel (by simp) hf
      simp only [List.cons_append, List.append_assoc, List.length_cons, List.length_append] at hf ⊢
      have hv := hv l (n + 1) fuel (memberChars l n ms ++ rest) (by omega)
        (stops_memberChars l n ms rest)
      have hms := members?_memberChars hks hms l n fuel rest (by omega)
      simp [value?, skipSpace_cons (c := '\x7b') rfl, skipSpace_append (l.newLine_isSpace (n + 1)),
        skipSpace_cons (c := '"') rfl, key?_encode, value?_append l.gap_isSpace, hv, hms]

end

/-- **A canonical document is split off the front of the input.** -/
theorem readsBack {v : Json} (hv : v.Canonical) : v.ReadsBack := by
  induction hv with
  | null => exact readsBack_null
  | bool b => exact readsBack_bool b
  | number n => exact readsBack_number n
  | string s => exact readsBack_string s
  | array h ih => exact readsBack_array h ih
  | object hk h ih => exact readsBack_object hk ih

/-- The text of a canonical document is read back as the document in every layout, with space behind
it. -/
theorem read?_chars {v : Json} (hv : v.Canonical) (l : Layout) (space : String)
    (hspace : ∀ c ∈ space.toList, isSpace c = true) :
    read? (String.ofList (v.chars l 0) ++ space) = some v := by
  have h := readsBack hv l 0 (2 * (v.chars l 0 ++ space.toList).length + 2) space.toList
    (by rw [List.length_append]; omega) (stops_of_isSpace hspace)
  have hrest := skipSpace_append hspace []
  rw [List.append_nil] at hrest
  simp only [read?, String.toList_append, String.toList_ofList, h, hrest]
  rfl

/-- **The text of a canonical document is read back as the document.** -/
theorem read?_compact {v : Json} (hv : v.Canonical) : read? v.compact = some v := by
  have h := read?_chars hv .compact "" (by simp)
  rwa [String.append_empty] at h

/-- **So is its text with one item or member a line**, whatever space stands behind it. -/
theorem read?_pretty {v : Json} (hv : v.Canonical) (space : String)
    (hspace : ∀ c ∈ space.toList, isSpace c = true) : read? (v.pretty ++ space) = some v :=
  read?_chars hv .pretty space hspace

end Json

end VersionedTables
