/-!
# Blank characters

A character is blank when it has the Unicode property `White_Space`. Blank characters at the ends
of a name or of a value do not count.

* **`Blank.isBlank`** — the property.
* **`Blank.trim`** — a text without the blank characters at its ends.
-/

namespace VersionedTables

namespace Blank

/-- The code points with the property `White_Space`: tabulation and line ends, the space and the
no-break space, and the spaces and separators beyond Latin-1. -/
def codePoints : List Nat :=
  [0x9, 0xA, 0xB, 0xC, 0xD, 0x20, 0x85, 0xA0, 0x1680,
   0x2000, 0x2001, 0x2002, 0x2003, 0x2004, 0x2005, 0x2006, 0x2007, 0x2008, 0x2009, 0x200A,
   0x2028, 0x2029, 0x202F, 0x205F, 0x3000]

def isBlank (c : Char) : Bool := codePoints.contains c.toNat

def trimEnd (cs : List Char) : List Char := (cs.reverse.dropWhile isBlank).reverse

def trimChars (cs : List Char) : List Char := trimEnd (cs.dropWhile isBlank)

/-- The text `s` without the blank characters at its two ends. -/
def trim (s : String) : String := String.ofList (trimChars s.toList)

@[simp] theorem toList_trim (s : String) : (trim s).toList = trimChars s.toList := by
  simp only [trim, String.toList_ofList]

end Blank

end VersionedTables
