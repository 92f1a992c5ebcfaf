/-!
# Text in 16-bit units

Program text is read in units of 16 bits. A character below 65536 is one unit, and any other is two:
a high half and a low half. Columns count units, and the lexer can stop between two halves, so a lone
half can turn up by itself. It has no character of its own. A text here is made of characters, so where a
text of units would hold a lone half, it holds the replacement character U+FFFD, which is what such a half
becomes when the text is written out.
-/

namespace TypedLet.Text

def charUnits (c : Char) : List UInt16 :=
  if c.toNat < 0x10000 then [c.toNat.toUInt16]
  else
    let rest := c.toNat - 0x10000
    [(0xD800 + rest / 0x400).toUInt16, (0xDC00 + rest % 0x400).toUInt16]

/-- The units of a text, in order. -/
def units (s : String) : List UInt16 :=
  s.toList.flatMap charUnits

/-- The character of one unit, taken alone: for a lone half U+FFFD, which does not tell the halves apart. -/
def unitChar (u : UInt16) : Char :=
  if 0xD800 ≤ u.toNat ∧ u.toNat < 0xE000 then '\ufffd' else Char.ofNat u.toNat

/-- The text of units none of which is half of a pair. -/
def ofUnits (us : List UInt16) : String :=
  String.ofList (us.map unitChar)

end TypedLet.Text
