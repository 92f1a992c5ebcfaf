/-!
# Blank characters and trimming

A line typed at the prompt is trimmed of blank characters at both ends before anything else looks at
it. Blank are the tab, the other line and page breaks, the space, the no-break space, the byte order
mark and every space separator of Unicode.
-/

namespace TypedLet.Text

def blankCodes : List Nat :=
  [0x09, 0x0A, 0x0B, 0x0C, 0x0D, 0x20, 0xA0, 0x1680, 0x2000, 0x2001, 0x2002, 0x2003, 0x2004, 0x2005,
    0x2006, 0x2007, 0x2008, 0x2009, 0x200A, 0x2028, 0x2029, 0x202F, 0x205F, 0x3000, 0xFEFF]

/-- Whether trimming removes the character at an end. -/
def isBlank (c : Char) : Bool :=
  blankCodes.contains c.toNat

/-- The characters between the first and the last that is not blank. -/
def trimList (cs : List Char) : List Char :=
  ((cs.dropWhile isBlank).reverse.dropWhile isBlank).reverse

/-- The text without the blank characters at its ends. -/
def trim (s : String) : String :=
  String.ofList (trimList s.toList)

end TypedLet.Text
