/-!
# Lines of a text

A line ends at a line feed, at a carriage return, or at both together, and at no other character.
Characters after the last end make one more line.
-/

namespace TypedLet.Text

def endsLine (c : Char) : Bool :=
  c == '\n' || c == '\r'

/-- Splits at the line ends; `line` holds the characters of the line so far, the last one first. -/
def linesFrom (line : List Char) : List Char → List String
  | [] => if line.isEmpty then [] else [String.ofList line.reverse]
  | '\r' :: '\n' :: rest => String.ofList line.reverse :: linesFrom [] rest
  | c :: rest =>
    if endsLine c then String.ofList line.reverse :: linesFrom [] rest
    else linesFrom (c :: line) rest

/-- The lines of a text, without their ends. -/
def lines (s : String) : List String :=
  linesFrom [] s.toList

end TypedLet.Text
