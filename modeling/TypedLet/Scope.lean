/-!
# Scopes

A scope is a chain of frames, the newest first, and each frame holds one name. Nothing changes a
scope once it is made: a longer scope is built on top of it, and whoever kept the shorter one still
has it.

A frame comes in three kinds. A plain frame carries an item. A recursive frame carries an item that
belongs to the very scope which the frame makes, so that the scope needs no cycle: `lookup` hands the
scope out together with the item. A reserved frame has no item yet. It hides older frames of its name,
and looking the name up finds nothing.
-/

namespace TypedLet

/-- A chain of frames: `α` is the type of plain items, `ρ` that of recursive ones. -/
inductive Scope (α ρ : Type) where
  | empty
  | extend (name : String) (item : α) (outer : Scope α ρ)
  | reserve (name : String) (outer : Scope α ρ)
  | extendRec (name : String) (item : ρ) (outer : Scope α ρ)

/-- What a name stands for: a plain item, or a recursive one and the scope it belongs to. -/
inductive Binding (α ρ : Type) where
  | plain (item : α)
  | recursive (item : ρ) (home : Scope α ρ)

namespace Scope

variable {α ρ : Type}

instance : Inhabited (Scope α ρ) := ⟨empty⟩

/-- The newest frame of the name decides what it stands for. -/
def lookup : Scope α ρ → String → Option (Binding α ρ)
  | empty, _ => none
  | extend n a outer, x => if n = x then some (.plain a) else outer.lookup x
  | reserve n outer, x => if n = x then none else outer.lookup x
  | extendRec n r outer, x =>
    if n = x then some (.recursive r (extendRec n r outer)) else outer.lookup x

def has (s : Scope α ρ) (x : String) : Bool :=
  (s.lookup x).isSome

/-- The scope with one plain frame for each pair, the last pair newest. -/
def ofList (pairs : List (String × α)) : Scope α ρ :=
  pairs.foldl (fun s p => s.extend p.1 p.2) empty

/-! ## Look-up in each kind of frame -/

@[simp] theorem lookup_empty (x : String) : (empty : Scope α ρ).lookup x = none := rfl

@[simp] theorem lookup_extend_self (s : Scope α ρ) (x : String) (a : α) :
    (s.extend x a).lookup x = some (.plain a) :=
  if_pos rfl

theorem lookup_extend_of_ne (s : Scope α ρ) {n x : String} (a : α) (h : n ≠ x) :
    (s.extend n a).lookup x = s.lookup x :=
  if_neg h

@[simp] theorem lookup_reserve_self (s : Scope α ρ) (x : String) :
    (s.reserve x).lookup x = none :=
  if_pos rfl

theorem lookup_reserve_of_ne (s : Scope α ρ) {n x : String} (h : n ≠ x) :
    (s.reserve n).lookup x = s.lookup x :=
  if_neg h

@[simp] theorem lookup_extendRec_self (s : Scope α ρ) (x : String) (r : ρ) :
    (s.extendRec x r).lookup x = some (.recursive r (s.extendRec x r)) :=
  if_pos rfl

theorem lookup_extendRec_of_ne (s : Scope α ρ) {n x : String} (r : ρ) (h : n ≠ x) :
    (s.extendRec n r).lookup x = s.lookup x :=
  if_neg h

@[simp] theorem has_iff (s : Scope α ρ) (x : String) :
    s.has x = true ↔ ∃ b, s.lookup x = some b := by
  simp [has, Option.isSome_iff_exists]

end Scope

end TypedLet
