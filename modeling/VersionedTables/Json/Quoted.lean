import VersionedTables.Text.Hex

/-!
# String tokens

Between its quotes a JSON string is a token: the quote, the backslash and the control characters of
a text are written as escapes, and all else stands for itself.

* **`Quoted.encode`** — the token of a text.
* **`Quoted.decode?`** — the text of a token. A token whose escapes name half of a surrogate pair
  has none.
* **`Quoted.token?`** — splits the input after an opening quote at the closing one. It takes every
  token whose escapes are well formed, also one that has no text.
-/

namespace VersionedTables

namespace Quoted

/-- The letter that names a character behind a backslash, for the characters that have one in
writing. -/
def letter? (c : Char) : Option Char :=
  if c = '"' then some '"'
  else if c = '\\' then some '\\'
  else if c = '\x08' then some 'b'
  else if c = '\x0c' then some 'f'
  else if c = '\n' then some 'n'
  else if c = '\x0d' then some 'r'
  else if c = '\t' then some 't'
  else none

/-- The character that a letter names behind a backslash. -/
def named? (c : Char) : Option Char :=
  if c = '"' then some '"'
  else if c = '\\' then some '\\'
  else if c = '/' then some '/'
  else if c = 'b' then some '\x08'
  else if c = 'f' then some '\x0c'
  else if c = 'n' then some '\n'
  else if c = 'r' then some '\x0d'
  else if c = 't' then some '\t'
  else none

def encodeChar (c : Char) : List Char :=
  match letter? c with
  | some l => ['\\', l]
  | none =>
      if c.toNat < 0x20 then ['\\', 'u', '0', '0', Hex.digit (c.toNat / 16), Hex.digit c.toNat]
      else [c]

def encode (s : String) : List Char := s.toList.flatMap encodeChar

/-! ### Reading -/

/-- The value of a four-digit escape. -/
def unit? (p q r s : Char) : Option Nat := Hex.number? [p, q, r, s]

/-- Whether a unit opens a surrogate pair. -/
def isHigh (n : Nat) : Bool := 0xD800 ≤ n && n < 0xDC00

/-- Whether a unit closes a surrogate pair. -/
def isLow (n : Nat) : Bool := 0xDC00 ≤ n && n < 0xE000

/-- The character that a surrogate pair stands for. -/
def paired (high low : Nat) : Char :=
  Char.ofNat (0x10000 + 0x400 * (high - 0xD800) + (low - 0xDC00))

def takeUnit? : List Char → Option (Nat × List Char)
  | p :: q :: r :: s :: rest => (unit? p q r s).map (·, rest)
  | _ => none

/-- Reads the escape that follows a backslash: its character and the input behind it. -/
def takeEscape? : List Char → Option (Char × List Char)
  | [] => none
  | 'u' :: rest => do
      let (n, rest) ← takeUnit? rest
      if isHigh n then
        match rest with
        | '\\' :: 'u' :: rest => do
            let (m, rest) ← takeUnit? rest
            if isLow m then some (paired n m, rest) else none
        | _ => none
      else if isLow n then none
      else some (Char.ofNat n, rest)
  | c :: rest => (named? c).map (·, rest)

theorem length_of_takeUnit? {s r : List Char} {n : Nat} (h : takeUnit? s = some (n, r)) :
    r.length < s.length := by
  unfold takeUnit? at h
  split at h
  · simp only [Option.map_eq_some_iff, Prod.mk.injEq] at h
    obtain ⟨_, _, _, rfl⟩ := h
    simp only [List.length_cons]
    omega
  · cases h

theorem length_of_takeEscape? {s r : List Char} {c : Char} (h : takeEscape? s = some (c, r)) :
    r.length < s.length := by
  unfold takeEscape? at h
  split at h
  · cases h
  · next rest =>
      simp only [Option.bind_eq_bind, Option.bind_eq_some_iff, Prod.exists] at h
      obtain ⟨n, t, ht, h⟩ := h
      have ht := length_of_takeUnit? ht
      split at h
      · split at h
        · next u =>
            simp only [Option.bind_eq_some_iff, Prod.exists] at h
            obtain ⟨m, v, hv, h⟩ := h
            have hv := length_of_takeUnit? hv
            split at h
            · simp only [Option.some.injEq, Prod.mk.injEq] at h
              obtain ⟨_, rfl⟩ := h
              simp only [List.length_cons] at *
              omega
            · cases h
        · cases h
      · split at h
        · cases h
        · simp only [Option.some.injEq, Prod.mk.injEq] at h
          obtain ⟨_, rfl⟩ := h
          simp only [List.length_cons]
          omega
  · simp only [Option.map_eq_some_iff, Prod.mk.injEq] at h
    obtain ⟨_, _, _, rfl⟩ := h
    simp only [List.length_cons]
    omega

def decodeChars? (s : List Char) : Option (List Char) :=
  match s with
  | [] => some []
  | c :: rest =>
      if c = '\\' then
        match h : takeEscape? rest with
        | some (d, rest') =>
            have : rest'.length < rest.length := length_of_takeEscape? h
            (decodeChars? rest').map (d :: ·)
        | none => none
      else (decodeChars? rest).map (c :: ·)
termination_by s.length

def decode? (token : List Char) : Option String := (decodeChars? token).map String.ofList

/-! ### Finding the end of a token -/

/-- Splits the input behind an opening quote into the token and what follows the closing quote. -/
def token? : List Char → Option (List Char × List Char)
  | [] => none
  | '"' :: rest => some ([], rest)
  | '\\' :: 'u' :: p :: q :: r :: s :: rest =>
      if (unit? p q r s).isSome then
        (token? rest).map (fun (t, rest) => ('\\' :: 'u' :: p :: q :: r :: s :: t, rest))
      else none
  | '\\' :: c :: rest =>
      if (named? c).isSome then (token? rest).map (fun (t, rest) => ('\\' :: c :: t, rest))
      else none
  | c :: rest =>
      if c = '\\' || c.toNat < 0x20 then none
      else (token? rest).map (fun (t, rest) => (c :: t, rest))

end Quoted

end VersionedTables
