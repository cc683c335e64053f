import VersionedTables.Json.Basic

/-!
# Reading documents

* **`Json.value?`** — reads one document from the front of the input.
* **`Json.read?`** — reads a text that holds one document and nothing else but space around it.
-/

namespace VersionedTables

namespace Json

/-- The input behind the space at its front. -/
def skipSpace (s : List Char) : List Char := s.dropWhile isSpace

/-! ### Numbers and literals -/

/-- Splits a run of digits from the front of the input; there must be one. -/
def digits? (s : List Char) : Option (List Char × List Char) :=
  if (s.takeWhile Char.isDigit).isEmpty then none
  else some (s.takeWhile Char.isDigit, s.dropWhile Char.isDigit)

/-- Splits the whole part of a number: a zero alone, or digits that begin with another one. -/
def whole? : List Char → Option (List Char × List Char)
  | '0' :: s => some (['0'], s)
  | s => digits? s

def fraction? : List Char → Option (List Char × List Char)
  | '.' :: s => (digits? s).map (fun (ds, s) => ('.' :: ds, s))
  | s => some ([], s)

def sign : List Char → List Char × List Char
  | '+' :: s => (['+'], s)
  | '-' :: s => (['-'], s)
  | s => ([], s)

def exponent? : List Char → Option (List Char × List Char)
  | [] => some ([], [])
  | c :: s =>
      if c = 'e' ∨ c = 'E' then
        (digits? (sign s).2).map (fun (ds, r) => (c :: (sign s).1 ++ ds, r))
      else some ([], c :: s)

/-- Splits a number without sign. -/
def magnitude? (s : List Char) : Option (List Char × List Char) := do
  let (i, s) ← whole? s
  let (f, s) ← fraction? s
  let (e, s) ← exponent? s
  return (i ++ f ++ e, s)

def number? : List Char → Option (List Char × List Char)
  | '-' :: s => (magnitude? s).map (fun (m, s) => ('-' :: m, s))
  | s => magnitude? s

/-- Reads a document that is neither a string nor nested. -/
def scalar? : List Char → Option (Json × List Char)
  | 'n' :: 'u' :: 'l' :: 'l' :: s => some (.null, s)
  | 't' :: 'r' :: 'u' :: 'e' :: s => some (.bool true, s)
  | 'f' :: 'a' :: 'l' :: 's' :: 'e' :: s => some (.bool false, s)
  | s => (number? s).map (fun (token, s) => (.number token, s))

/-! ### Documents -/

/-- Reads a key and the colon behind it. -/
def key? (s : List Char) : Option (List Char × List Char) :=
  match skipSpace s with
  | '"' :: s =>
      match Quoted.token? s with
      | some (k, s) =>
          match skipSpace s with
          | ':' :: s => some (k, s)
          | _ => none
      | none => none
  | _ => none

mutual

/-- Reads one document. Every level of nesting and every item takes one unit of `fuel`. -/
def value? (fuel : Nat) (s : List Char) : Option (Json × List Char) :=
  match fuel with
  | 0 => none
  | fuel + 1 =>
      match skipSpace s with
      | '"' :: s => (Quoted.token? s).map (fun (token, s) => (.string token, s))
      | '[' :: s =>
          match skipSpace s with
          | ']' :: s => some (.array [], s)
          | s => do
              let (v, s) ← value? fuel s
              let (vs, s) ← items? fuel s
              return (.array (v :: vs), s)
      | '\x7b' :: s =>
          match skipSpace s with
          | '\x7d' :: s => some (.object [], s)
          | s => do
              let (k, s) ← key? s
              let (v, s) ← value? fuel s
              let (ms, s) ← members? fuel s
              return (.object ((k, v) :: ms), s)
      | s => scalar? s

/-- Reads the items behind the first one, up to the closing bracket. -/
def items? (fuel : Nat) (s : List Char) : Option (List Json × List Char) :=
  match fuel with
  | 0 => none
  | fuel + 1 =>
      match skipSpace s with
      | ']' :: s => some ([], s)
      | ',' :: s => do
          let (v, s) ← value? fuel s
          let (vs, s) ← items? fuel s
          return (v :: vs, s)
      | _ => none

/-- Reads the members behind the first one, up to the closing brace. -/
def members? (fuel : Nat) (s : List Char) : Option (List (List Char × Json) × List Char) :=
  match fuel with
  | 0 => none
  | fuel + 1 =>
      match skipSpace s with
      | '\x7d' :: s => some ([], s)
      | ',' :: s => do
          let (k, s) ← key? s
          let (v, s) ← value? fuel s
          let (ms, s) ← members? fuel s
          return ((k, v) :: ms, s)
      | _ => none

end

/-- Reads a text that holds one document. Each character takes at most two units of fuel. -/
def read? (s : String) : Option Json :=
  let cs := s.toList
  match value? (2 * cs.length + 2) cs with
  | some (v, rest) => if (skipSpace rest).isEmpty then some v else none
  | none => none

end Json

end VersionedTables
