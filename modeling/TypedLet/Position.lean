/-!
# Positions in a text

Lines and columns count from one. A line feed starts a new line, and every other unit of the text
takes one column.
-/

namespace TypedLet

structure Position where
  line : Int
  column : Int
  deriving DecidableEq, Repr, Inhabited

namespace Position

def start : Position := ⟨1, 1⟩

/-- The unit that ends a line. -/
def lineFeed : UInt16 := 0x0A

/-- The position behind one unit. -/
def next (p : Position) (u : UInt16) : Position :=
  if u = lineFeed then ⟨p.line + 1, 1⟩ else ⟨p.line, p.column + 1⟩

/-- The position behind some units. -/
def after (p : Position) (us : List UInt16) : Position :=
  us.foldl next p

/-- The words with which a message names a position. -/
def render (p : Position) : String :=
  "line " ++ toString p.line ++ ", column " ++ toString p.column

@[simp] theorem after_nil (p : Position) : p.after [] = p := rfl

@[simp] theorem after_cons (p : Position) (u : UInt16) (us : List UInt16) :
    p.after (u :: us) = (p.next u).after us := rfl

theorem after_append (p : Position) (us vs : List UInt16) :
    p.after (us ++ vs) = (p.after us).after vs := by
  simp [after, List.foldl_append]

end Position

end TypedLet
