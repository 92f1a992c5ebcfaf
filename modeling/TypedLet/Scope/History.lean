import TypedLet.Scope

/-!
# Histories of scopes

Scopes are made one after another, each on top of one made before. A history keeps them all under the
numbers in which they came, so that any of them can be asked at any later time. Items are labels here,
and a recursive item also carries the number of the scope that it belongs to.
-/

namespace TypedLet

abbrev LabelScope : Type := Scope String (String × Nat)

/-- The label of what a name stands for. -/
def Binding.label : Binding String (String × Nat) → String
  | .plain label => label
  | .recursive (label, _) _ => label

/-- The number of the scope that the item belongs to, if it belongs to one. -/
def Binding.home? : Binding String (String × Nat) → Option Nat
  | .plain _ => none
  | .recursive (_, number) _ => some number

namespace Scope

variable {α ρ : Type}

/-- The scope with one more frame, which stays reserved where there is no item. -/
def extend? (s : Scope α ρ) (name : String) : Option α → Scope α ρ
  | some item => s.extend name item
  | none => s.reserve name

/-- For each name the last pair that has it. -/
def lastOfEach : List (String × Option α) → List (String × Option α)
  | [] => []
  | p :: ps => if ps.any (·.1 = p.1) then lastOfEach ps else p :: lastOfEach ps

/-- The scope of a record: one frame for each name, with the last item given for it. -/
def ofRecord (entries : List (String × Option α)) : Scope α ρ :=
  (lastOfEach entries).foldl (fun s p => s.extend? p.1 p.2) empty

/-- Looks a name up, and then the names of a path, each in the scope of the item found before it. The
first name of the path that has no scope to be looked up in is the error. -/
def follow (s : Scope α ρ) (name : String) : List String → Except String (Option (Binding α ρ))
  | [] => .ok (s.lookup name)
  | next :: path =>
    match s.lookup name with
    | some (.recursive _ home) => home.follow next path
    | _ => .error next

end Scope

namespace Scope.History

/-- A way to make a scope; `base` is the number of the scope it is built on. -/
inductive Making where
  | empty
  | extend (base : Nat) (name : String) (label : Option String)
  | record (entries : List (String × Option String))
  | extendRec (base : Nat) (name : String) (label : Option String)
  deriving DecidableEq, Repr

end Scope.History

/-- Scopes in the order in which they were made. -/
structure Scope.History where
  scopes : List LabelScope

namespace Scope.History

def start : History := ⟨[.empty]⟩

def scope (h : History) (number : Nat) : LabelScope :=
  h.scopes.getD number .empty

/-- The number that the next scope gets. -/
def next (h : History) : Nat := h.scopes.length

/-- The scope that a making adds to those made before. -/
def built (h : History) : Making → LabelScope
  | .empty => .empty
  | .extend base name label => (h.scope base).extend? name label
  | .record entries => .ofRecord entries
  | .extendRec base name (some label) => (h.scope base).extendRec name (label, h.next)
  | .extendRec base name none => (h.scope base).reserve name

def make (h : History) (making : Making) : History :=
  ⟨h.scopes ++ [h.built making]⟩

/-- The scope in which the item of a recursive frame is made: the frame is there and has no item. -/
def initialising (h : History) (base : Nat) (name : String) : LabelScope :=
  (h.scope base).reserve name

end Scope.History

end TypedLet
