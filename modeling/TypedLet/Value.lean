import TypedLet.Expr
import TypedLet.Scope
import TypedLet.Word64

/-!
# Values

A value is an integer, a truth value, or a closure: a procedure together with the scope it was made
in. A scope holds a recursive procedure as a recursive item, and looking it up gives the closure over
the very scope that holds it.
-/

namespace TypedLet

/-- A procedure without a scope for its free names. -/
structure Procedure where
  param : String
  paramType : Ty
  body : Expr
  deriving DecidableEq, Repr, Inhabited

inductive Value where
  | int (n : Int)
  | bool (b : Bool)
  | closure (code : Procedure) (scope : Scope Value Procedure)

/-- What the names in an expression stand for. -/
abbrev ValueScope : Type := Scope Value Procedure

namespace Value

instance : Inhabited Value := ⟨int 0⟩

/-- The integer value that `n` wraps to. -/
def ofInt (n : Int) : Value := int (Word64.wrap n)

def int? : Value → Option Int
  | int n => some n
  | _ => none

def bool? : Value → Option Bool
  | bool b => some b
  | _ => none

/-- The procedure of a closure and the scope it was made in. -/
def closure? : Value → Option (Procedure × Scope Value Procedure)
  | closure code scope => some (code, scope)
  | _ => none

/-- What a name with this binding stands for. -/
def ofBinding : Binding Value Procedure → Value
  | .plain v => v
  | .recursive code home => closure code home

/-- The text of a value. A closure shows its parameter alone. -/
def render : Value → String
  | int n => toString n
  | bool b => if b then "true" else "false"
  | closure code _ => "<proc (" ++ code.param ++ ": " ++ code.paramType.render ++ ")>"

@[simp] theorem int?_eq_some_iff {v : Value} {n : Int} : v.int? = some n ↔ v = int n := by
  cases v <;> simp [int?]

@[simp] theorem bool?_eq_some_iff {v : Value} {b : Bool} : v.bool? = some b ↔ v = bool b := by
  cases v <;> simp [bool?]

@[simp] theorem closure?_eq_some_iff {v : Value} {code : Procedure}
    {scope : Scope Value Procedure} :
    v.closure? = some (code, scope) ↔ v = closure code scope := by
  cases v <;> simp [closure?]

end Value

def ValueScope.value? (scope : ValueScope) (name : String) : Option Value :=
  (scope.lookup name).map Value.ofBinding

namespace ValueScope

@[simp] theorem value?_empty (x : String) : value? .empty x = none := rfl

@[simp] theorem value?_extend_self (scope : ValueScope) (x : String) (v : Value) :
    value? (scope.extend x v) x = some v := by
  simp [value?, Value.ofBinding]

theorem value?_extend_of_ne (scope : ValueScope) {n x : String} (v : Value) (h : n ≠ x) :
    value? (scope.extend n v) x = value? scope x := by
  simp [value?, Scope.lookup_extend_of_ne scope v h]

@[simp] theorem value?_extendRec_self (scope : ValueScope) (x : String) (code : Procedure) :
    value? (scope.extendRec x code) x = some (.closure code (scope.extendRec x code)) := by
  simp [value?, Value.ofBinding]

theorem value?_extendRec_of_ne (scope : ValueScope) {n x : String} (code : Procedure) (h : n ≠ x) :
    value? (scope.extendRec n code) x = value? scope x := by
  simp [value?, Scope.lookup_extendRec_of_ne scope code h]

end ValueScope

end TypedLet
