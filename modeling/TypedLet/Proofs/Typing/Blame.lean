import TypedLet.Proofs.Expr.Parts
import TypedLet.Proofs.Ty.Text
import TypedLet.Proofs.Typing.Rules

/-!
# The rule that is broken first

Where an expression has no type, some part of it breaks its own rule: the parts that its rule looks at
have types, and these do not fit. `Breaks` tells the ways in which this can be, and the error of each.
The error of a check is that of the first such part. A part is told by its path, the numbers of the parts
to go into from the outside in. Parts are checked in the order of their paths, and a part contains another
one if its path begins the other's.
-/

namespace TypedLet

/-! ## The course of a check -/

/-- The check of the first expression looks at its part number `i` in its scope: what the rule asks of the
parts before holds. -/
inductive Examines : TyScope → Expr → Nat → TyScope → Expr → Prop where
  | negate {G e} : Examines G (.negate e) 0 G e
  | subtract_left {G e₁ e₂} : Examines G (.subtract e₁ e₂) 0 G e₁
  | subtract_right {G e₁ e₂} (h₁ : Typed G e₁ .int) : Examines G (.subtract e₁ e₂) 1 G e₂
  | isZero {G e} : Examines G (.isZero e) 0 G e
  | ite_guard {G e e₁ e₂} : Examines G (.ite e e₁ e₂) 0 G e
  | ite_then {G e e₁ e₂} (h : Typed G e .bool) : Examines G (.ite e e₁ e₂) 1 G e₁
  | ite_else {G e e₁ e₂ t} (h : Typed G e .bool) (h₁ : Typed G e₁ t) :
      Examines G (.ite e e₁ e₂) 2 G e₂
  | letIn_init {G x e₁ e₂} : Examines G (.letIn x e₁ e₂) 0 G e₁
  | letIn_body {G x e₁ e₂ t} (h₁ : Typed G e₁ t) : Examines G (.letIn x e₁ e₂) 1 (G.extend x t) e₂
  | proc {G x t e} : Examines G (.proc x t e) 0 (G.extend x t) e
  | apply_fn {G e₁ e₂} : Examines G (.apply e₁ e₂) 0 G e₁
  | apply_arg {G e₁ e₂ s t} (h₁ : Typed G e₁ (.arrow s t)) : Examines G (.apply e₁ e₂) 1 G e₂
  | letrec_body {G u f x s e₁ e₂} :
      Examines G (.letrec u f x s e₁ e₂) 0 ((G.extend f (.arrow s u)).extend x s) e₁
  | letrec_last {G u f x s e₁ e₂} (h₁ : Typed ((G.extend f (.arrow s u)).extend x s) e₁ u) :
      Examines G (.letrec u f x s e₁ e₂) 1 (G.extend f (.arrow s u)) e₂
  | assert_guard {G e₁ e₂ line} : Examines G (.assert e₁ e₂ line) 0 G e₁
  | assert_body {G e₁ e₂ line} (h₁ : Typed G e₁ .bool) : Examines G (.assert e₁ e₂ line) 1 G e₂

/-- The check of the first expression comes to the part at the path, in its scope. -/
inductive Checks : TyScope → Expr → List Nat → TyScope → Expr → Prop where
  | here {G e} : Checks G e [] G e
  | inside {G e i H d p K s} (h : Examines G e i H d) (hs : Checks H d p K s) :
      Checks G e (i :: p) K s

/-- What stands at a path, whether or not a check comes there. -/
def Expr.part? : Expr → List Nat → Option Expr
  | e, [] => some e
  | e, i :: p => e.children[i]?.bind (part? · p)

/-! ## Broken rules -/

/-- The part of the expression that stands at the place, by its number. -/
inductive TypedPlace.In : TypedPlace → Expr → Nat → Prop where
  | negated {e} : In .negated (.negate e) 0
  | minuend {e₁ e₂} : In .minuend (.subtract e₁ e₂) 0
  | subtrahend {e₁ e₂} : In .subtrahend (.subtract e₁ e₂) 1
  | zeroTested {e} : In .zeroTested (.isZero e) 0
  | ifGuard {e e₁ e₂} : In .ifGuard (.ite e e₁ e₂) 0
  | assertGuard {e₁ e₂ line} : In .assertGuard (.assert e₁ e₂ line) 0

/-- The expression breaks its own rule, and the error says how. -/
inductive Breaks : TyScope → Expr → TypeError → Prop where
  | wrongType {G e i d place t} (hplace : TypedPlace.In place e i) (hd : Examines G e i G d)
      (ht : Typed G d t) (hne : t ≠ place.wanted) : Breaks G e (.wrongType place t)
  | branches {G e e₁ e₂ t u} (h : Typed G e .bool) (h₁ : Typed G e₁ t) (h₂ : Typed G e₂ u)
      (hne : t ≠ u) : Breaks G (.ite e e₁ e₂) (.branches t u)
  | argument {G e₁ e₂ s t u} (h₁ : Typed G e₁ (.arrow s t)) (h₂ : Typed G e₂ u) (hne : s ≠ u) :
      Breaks G (.apply e₁ e₂) (.argument s u)
  | result {G u f x s e₁ e₂ t} (h₁ : Typed ((G.extend f (.arrow s u)).extend x s) e₁ t)
      (hne : t ≠ u) : Breaks G (.letrec u f x s e₁ e₂) (.result f u t)
  | unbound {G : TyScope} {x} (hx : G.type? x = none) : Breaks G (.identifier x) (.unbound x)
  | notProcedure {G e₁ e₂ t} (h₁ : Typed G e₁ t) (ht : t = .int ∨ t = .bool) :
      Breaks G (.apply e₁ e₂) (.notProcedure t)

/-- All ways in which the check of an expression fails: its own rule is broken, or the check of a part
fails. -/
inductive TypeError.Arises (G : TyScope) (e : Expr) (err : TypeError) : Prop where
  | broken (h : Breaks G e err)
  | inside {i H d} (h : Examines G e i H d) (hd : d.typeIn H = .error err)

section Arising

variable {G : TyScope} {e d : Expr} {err : TypeError}

/-- Where a rule asks for one type, the check fails inside the part or by its type, or it fails behind. -/
theorem TypedPlace.In.arises {place : TypedPlace} {i : Nat} {α : Type} {rest : Except TypeError α}
    (hplace : place.In e i) (hd : Examines G e i G d)
    (h : (d.typeIn G >>= fun t => place.check t >>= fun _ => rest) = .error err) :
    err.Arises G e ∨ Typed G d place.wanted ∧ rest = .error err := by
  rcases except_bind_eq_error.1 h with hpart | ⟨t, ht, h⟩
  · exact .inl (.inside hd hpart)
  · have ht := typed_of_typeIn ht
    rcases except_bind_eq_error.1 h with hcheck | ⟨_, hcheck, hrest⟩
    · obtain ⟨hne, rfl⟩ := TypedPlace.check_eq_error.1 hcheck
      exact .inl (.broken (.wrongType hplace hd ht hne))
    · obtain rfl := TypedPlace.check_eq_ok.1 hcheck
      exact .inr ⟨ht, hrest⟩

theorem TypeError.arises (h : e.typeIn G = .error err) : err.Arises G e := by
  cases e with
  | number | bool => cases h
  | negate d =>
      rcases TypedPlace.In.negated.arises .negate h with h | ⟨-, h⟩
      · exact h
      · cases h
  | subtract d₁ d₂ =>
      rcases TypedPlace.In.minuend.arises .subtract_left h with h | ⟨h₁, h⟩
      · exact h
      · rcases TypedPlace.In.subtrahend.arises (.subtract_right h₁) h with h | ⟨-, h⟩
        · exact h
        · cases h
  | isZero d =>
      rcases TypedPlace.In.zeroTested.arises .isZero h with h | ⟨-, h⟩
      · exact h
      · cases h
  | ite d d₁ d₂ =>
      rcases TypedPlace.In.ifGuard.arises .ite_guard h with h | ⟨hd, h⟩
      · exact h
      · rcases except_bind_eq_error.1 h with h | ⟨t, h₁, h⟩
        · exact .inside (.ite_then hd) h
        · have h₁ := typed_of_typeIn h₁
          rcases except_bind_eq_error.1 h with h | ⟨u, h₂, h⟩
          · exact .inside (.ite_else hd h₁) h
          · split at h
            · cases h
            · rename_i hne
              cases h
              exact .broken (.branches hd h₁ (typed_of_typeIn h₂) hne)
  | identifier x =>
      rw [Expr.typeIn] at h
      split at h
      · cases h
      · rename_i hx
        cases h
        exact .broken (.unbound hx)
  | letIn x d₁ d₂ =>
      rcases except_bind_eq_error.1 h with h | ⟨t, h₁, h⟩
      · exact .inside .letIn_init h
      · exact .inside (.letIn_body (typed_of_typeIn h₁)) h
  | proc x t d =>
      rcases except_bind_eq_error.1 h with h | ⟨u, -, h⟩
      · exact .inside .proc h
      · cases h
  | apply d₁ d₂ =>
      rcases except_bind_eq_error.1 h with h | ⟨t, h₁, h⟩
      · exact .inside .apply_fn h
      · have h₁ := typed_of_typeIn h₁
        cases t with
        | int =>
            cases h
            exact .broken (.notProcedure h₁ (.inl rfl))
        | bool =>
            cases h
            exact .broken (.notProcedure h₁ (.inr rfl))
        | arrow s t =>
            rcases except_bind_eq_error.1 h with h | ⟨u, h₂, h⟩
            · exact .inside (.apply_arg h₁) h
            · split at h
              · cases h
              · rename_i hne
                cases h
                exact .broken (.argument h₁ (typed_of_typeIn h₂) hne)
  | letrec u f x s d₁ d₂ =>
      rcases except_bind_eq_error.1 h with h | ⟨t, h₁, h⟩
      · exact .inside .letrec_body h
      · have h₁ := typed_of_typeIn h₁
        split at h
        · rename_i htu
          exact .inside (.letrec_last (htu ▸ h₁)) h
        · rename_i hne
          cases h
          exact .broken (.result h₁ hne)
  | assert d₁ d₂ line =>
      rcases TypedPlace.In.assertGuard.arises .assert_guard h with h | ⟨h₁, h⟩
      · exact h
      · exact .inside (.assert_body h₁) h

end Arising

/-! ## What comes before a broken rule -/

section Order

variable {G H : TyScope} {e d s : Expr} {t : Ty} {i : Nat} {p : List Nat} {err : TypeError}

theorem Examines.getElem?_children (h : Examines G e i H d) : e.children[i]? = some d := by
  cases h <;> rfl

theorem Checks.part? (h : Checks G e p H s) : e.part? p = some s := by
  induction h with
  | here => rfl
  | inside hi _ ih => exact Option.bind_eq_some_iff.2 ⟨_, hi.getElem?_children, ih⟩

/-- All that stands directly in a typed expression is looked at and has a type. -/
theorem Typed.examines (h : Typed G e t) (hd : e.children[i]? = some d) :
    ∃ H u, Examines G e i H d ∧ Typed H d u := by
  cases h with
  | number | bool | identifier => cases hd
  | negate h =>
      match i, hd with
      | 0, rfl => exact ⟨_, _, .negate, h⟩
  | subtract h₁ h₂ =>
      match i, hd with
      | 0, rfl => exact ⟨_, _, .subtract_left, h₁⟩
      | 1, rfl => exact ⟨_, _, .subtract_right h₁, h₂⟩
  | isZero h =>
      match i, hd with
      | 0, rfl => exact ⟨_, _, .isZero, h⟩
  | ite h h₁ h₂ =>
      match i, hd with
      | 0, rfl => exact ⟨_, _, .ite_guard, h⟩
      | 1, rfl => exact ⟨_, _, .ite_then h, h₁⟩
      | 2, rfl => exact ⟨_, _, .ite_else h h₁, h₂⟩
  | letIn h₁ h₂ =>
      match i, hd with
      | 0, rfl => exact ⟨_, _, .letIn_init, h₁⟩
      | 1, rfl => exact ⟨_, _, .letIn_body h₁, h₂⟩
  | proc h =>
      match i, hd with
      | 0, rfl => exact ⟨_, _, .proc, h⟩
  | apply h₁ h₂ =>
      match i, hd with
      | 0, rfl => exact ⟨_, _, .apply_fn, h₁⟩
      | 1, rfl => exact ⟨_, _, .apply_arg h₁, h₂⟩
  | letrec h₁ h₂ =>
      match i, hd with
      | 0, rfl => exact ⟨_, _, .letrec_body, h₁⟩
      | 1, rfl => exact ⟨_, _, .letrec_last h₁, h₂⟩
  | assert h₁ h₂ =>
      match i, hd with
      | 0, rfl => exact ⟨_, _, .assert_guard, h₁⟩
      | 1, rfl => exact ⟨_, _, .assert_body h₁, h₂⟩

/-- A check looks at a part only when those before it have types. -/
theorem Examines.before (h : Examines G e i H d) {j : Nat} {c : Expr} (hj : j < i)
    (hc : e.children[j]? = some c) : ∃ K u, Examines G e j K c ∧ Typed K c u := by
  cases h with
  | negate | subtract_left | isZero | ite_guard | letIn_init | proc | apply_fn | letrec_body
  | assert_guard => exact absurd hj (Nat.not_lt_zero j)
  | subtract_right h₁ =>
      match j, hj, hc with
      | 0, _, rfl => exact ⟨_, _, .subtract_left, h₁⟩
  | ite_then h =>
      match j, hj, hc with
      | 0, _, rfl => exact ⟨_, _, .ite_guard, h⟩
  | ite_else h h₁ =>
      match j, hj, hc with
      | 0, _, rfl => exact ⟨_, _, .ite_guard, h⟩
      | 1, _, rfl => exact ⟨_, _, .ite_then h, h₁⟩
  | letIn_body h₁ =>
      match j, hj, hc with
      | 0, _, rfl => exact ⟨_, _, .letIn_init, h₁⟩
  | apply_arg h₁ =>
      match j, hj, hc with
      | 0, _, rfl => exact ⟨_, _, .apply_fn, h₁⟩
  | letrec_last h₁ =>
      match j, hj, hc with
      | 0, _, rfl => exact ⟨_, _, .letrec_body, h₁⟩
  | assert_body h₁ =>
      match j, hj, hc with
      | 0, _, rfl => exact ⟨_, _, .assert_guard, h₁⟩

/-- The check of a typed expression comes to all its parts, and they have types. -/
theorem Typed.checks (h : Typed G e t) (hd : e.part? p = some d) :
    ∃ H u, Checks G e p H d ∧ Typed H d u := by
  induction p generalizing G e t with
  | nil =>
      obtain rfl := Option.some.inj hd
      exact ⟨G, t, .here, h⟩
  | cons i p ih =>
      obtain ⟨c, hc, hd⟩ := Option.bind_eq_some_iff.1 hd
      obtain ⟨K, u, hexamines, hc⟩ := h.examines hc
      obtain ⟨H, v, hchecks, hd⟩ := ih hc hd
      exact ⟨H, v, .inside hexamines hchecks, hd⟩

/-- When a check comes to a part, all that it has come to before and left again has types. -/
theorem Checks.before (h : Checks G e p H s) {q : List Nat} (hd : e.part? q = some d) (hq : q < p)
    (hleft : ¬ q <+: p) : ∃ K u, Checks G e q K d ∧ Typed K d u := by
  induction h generalizing q with
  | here => exact absurd hq (List.not_lt_nil q)
  | @inside G e i H c p K s hi hs ih =>
      cases q with
      | nil => exact absurd List.nil_prefix hleft
      | cons j q =>
          obtain ⟨b, hb, hd⟩ := Option.bind_eq_some_iff.1 hd
          rcases List.cons_lt_cons_iff.1 hq with hj | ⟨rfl, hinside⟩
          · -- The paths part here, so the earlier part lies in one that has a type as a whole.
            obtain ⟨L, u, hexamines, hb⟩ := hi.before hj hb
            obtain ⟨M, v, hchecks, hd⟩ := hb.checks hd
            exact ⟨M, v, .inside hexamines hchecks, hd⟩
          · rw [hi.getElem?_children, Option.some.injEq] at hb
            subst hb
            rw [List.cons_prefix_cons] at hleft
            obtain ⟨L, u, hchecks, hd⟩ := ih hd hinside fun h => hleft ⟨rfl, h⟩
            exact ⟨L, u, .inside hi hchecks, hd⟩

/-- A failed check comes to a part that breaks its own rule. -/
theorem exists_breaks (h : e.typeIn G = .error err) :
    ∃ p H s, Checks G e p H s ∧ Breaks H s err := by
  induction e using Expr.childInduction generalizing G with
  | ind e ih =>
      cases TypeError.arises h with
      | broken hbreaks => exact ⟨[], G, e, .here, hbreaks⟩
      | @inside i K d hi hd =>
          obtain ⟨p, H, s, hchecks, hbreaks⟩ := ih d (List.mem_of_getElem? hi.getElem?_children) hd
          exact ⟨i :: p, H, s, .inside hi hchecks, hbreaks⟩

end Order

/-! ## What a broken rule determines -/

section Determined

variable {G H : TyScope} {e d : Expr} {i : Nat} {t : Ty} {err err' : TypeError}

/-- The parts that a broken rule looks at have types. -/
theorem Breaks.examined (h : Breaks G e err) (hd : Examines G e i H d) : ∃ t, Typed H d t := by
  cases h with
  | wrongType hplace hpart ht hne =>
      -- A part of the wrong type keeps the check from the parts behind it.
      cases hplace <;> cases hpart <;> cases hd
      case negated.negate.negate | minuend.subtract_left.subtract_left | zeroTested.isZero.isZero
        | subtrahend.subtract_right.subtract_right | ifGuard.ite_guard.ite_guard
        | assertGuard.assert_guard.assert_guard => exact ⟨_, ht⟩
      case subtrahend.subtract_right.subtract_left h₁ => exact ⟨_, h₁⟩
      case minuend.subtract_left.subtract_right h | ifGuard.ite_guard.ite_then h
        | ifGuard.ite_guard.ite_else h _ | assertGuard.assert_guard.assert_body h =>
          exact absurd (ht.unique h) hne
  | branches h h₁ h₂ hne =>
      cases hd with
      | ite_guard => exact ⟨_, h⟩
      | ite_then => exact ⟨_, h₁⟩
      | ite_else => exact ⟨_, h₂⟩
  | argument h₁ h₂ hne =>
      cases hd with
      | apply_fn => exact ⟨_, h₁⟩
      | apply_arg => exact ⟨_, h₂⟩
  | result h₁ hne =>
      cases hd with
      | letrec_body => exact ⟨_, h₁⟩
      | letrec_last h => exact absurd (h₁.unique h) hne
  | unbound hx => cases hd
  | notProcedure h₁ ht =>
      cases hd with
      | apply_fn => exact ⟨_, h₁⟩
      | apply_arg h =>
          rcases ht with rfl | rfl
          · cases h₁.unique h
          · cases h₁.unique h

theorem TypedPlace.check_typed {place : TypedPlace} {α : Type} {rest : Except TypeError α}
    (ht : Typed G d t) (hne : t ≠ place.wanted) :
    (d.typeIn G >>= fun t => place.check t >>= fun _ => rest) = .error (.wrongType place t) := by
  refine except_bind_eq_error.2 (.inr ⟨t, ht.typeIn, ?_⟩)
  exact except_bind_eq_error.2 (.inl (check_eq_error.2 ⟨hne, rfl⟩))

theorem Breaks.typeIn (h : Breaks G e err) : e.typeIn G = .error err := by
  cases h with
  | wrongType hplace hpart ht hne =>
      cases hplace <;> cases hpart
      case subtrahend.subtract_right h₁ =>
        rw [Expr.typeIn, h₁.typeIn]
        exact TypedPlace.check_typed ht hne
      all_goals exact TypedPlace.check_typed ht hne
  | branches h h₁ h₂ hne =>
      rw [Expr.typeIn, h.typeIn, h₁.typeIn, h₂.typeIn]
      exact if_neg hne
  | argument h₁ h₂ hne =>
      rw [Expr.typeIn, h₁.typeIn, h₂.typeIn]
      exact if_neg hne
  | result h₁ hne =>
      rw [Expr.typeIn, h₁.typeIn]
      exact if_neg hne
  | unbound hx => rw [Expr.typeIn, hx]
  | notProcedure h₁ ht =>
      rw [Expr.typeIn, h₁.typeIn]
      rcases ht with rfl | rfl <;> rfl

theorem Breaks.unique (h : Breaks G e err) (h' : Breaks G e err') : err' = err :=
  Except.error.inj (h'.typeIn.symm.trans h.typeIn)

end Determined

/-! ## The two types of a mismatch -/

namespace TypeError

/-- The types that a mismatch is about, in the order in which its message quotes them. -/
def sides : TypeError → Option (Ty × Ty)
  | wrongType place actual => some (place.wanted, actual)
  | branches thenType elseType => some (thenType, elseType)
  | argument domain actual => some (domain, actual)
  | result _ declared actual => some (declared, actual)
  | unbound _ | notProcedure _ => none

theorem message_of_sides {err : TypeError} {a b : Ty} (h : err.sides = some (a, b)) :
    ∃ opening middle, err.message = opening ++ quote a.render ++ middle ++ quote b.render := by
  cases err with
  | wrongType | branches | argument | result =>
      cases h
      exact ⟨_, _, rfl⟩
  | unbound | notProcedure => cases h

end TypeError

theorem Breaks.sides_ne {G : TyScope} {e : Expr} {err : TypeError} (h : Breaks G e err)
    (hkind : err.kind = .mismatch) : ∃ a b, err.sides = some (a, b) ∧ a ≠ b := by
  cases h with
  | wrongType _ _ _ hne | result _ hne => exact ⟨_, _, rfl, hne.symm⟩
  | branches _ _ _ hne | argument _ _ hne => exact ⟨_, _, rfl, hne⟩
  | unbound | notProcedure => cases hkind

/-! ## Blame -/

/-- The part `s` at the path `p`, which is checked in the scope `H`, is to blame for the error of the
check of `e` in `G`. -/
structure Blames (G : TyScope) (e : Expr) (err : TypeError) (p : List Nat) (H : TyScope) (s : Expr) :
    Prop where
  part : e.part? p = some s
  checks : Checks G e p H s
  breaks : Breaks H s err
  /-- The part breaks its rule in one way only, so it determines the error. -/
  unique : ∀ err', Breaks H s err' → err' = err
  /-- What is checked before the part, unless it contains the part, has a type in its scope. -/
  before : ∀ q d, e.part? q = some d → q < p → ¬ q <+: p → ∃ K t, Checks G e q K d ∧ Typed K d t
  /-- What the broken rule looks at has a type in its scope. -/
  examined : ∀ i K d, Examines H s i K d → ∃ t, Typed K d t
  /-- A mismatch quotes the texts of its two types, and they differ. -/
  quoted : err.kind = .mismatch → ∃ a b opening middle, err.sides = some (a, b) ∧
    err.message = opening ++ TypeError.quote a.render ++ middle ++ TypeError.quote b.render ∧
      a.render ≠ b.render

theorem Checks.blames {G H : TyScope} {e s : Expr} {p : List Nat} {err : TypeError}
    (h : Checks G e p H s) (hbreaks : Breaks H s err) : Blames G e err p H s where
  part := h.part?
  checks := h
  breaks := hbreaks
  unique _ := hbreaks.unique
  before _ _ hd hq hleft := h.before hd hq hleft
  examined _ _ _ := hbreaks.examined
  quoted hkind := by
    obtain ⟨a, b, hsides, hne⟩ := hbreaks.sides_ne hkind
    obtain ⟨opening, middle, hmessage⟩ := TypeError.message_of_sides hsides
    exact ⟨a, b, opening, middle, hsides, hmessage, fun htexts => hne (Ty.render_injective htexts)⟩

/-- A check fails for the first part that breaks its rule, with the error of that rule. -/
theorem typeIn_error_blames {G : TyScope} {e : Expr} {err : TypeError} (h : e.typeIn G = .error err) :
    ∃ p H s, Blames G e err p H s := by
  obtain ⟨p, H, s, hchecks, hbreaks⟩ := exists_breaks h
  exact ⟨p, H, s, hchecks.blames hbreaks⟩

/-- A procedure stands where an integer is called for, and behind it a name that has no type. -/
def procedureMinuend : Expr :=
  .letIn "g" (.proc "x" .int (.isZero (.identifier "x")))
    (.ite (.apply (.identifier "g") (.number "0"))
      (.subtract (.identifier "g") (.identifier "y")) (.bool true))

theorem procedureMinuend_blamed :
    procedureMinuend.typeIn .empty = .error (.wrongType .minuend (.arrow .int .bool)) ∧
      (TypeError.wrongType .minuend (.arrow .int .bool)).message =
        "-() first argument expects `int` but got `(int -> bool)`" ∧
      ∃ p H s, Blames .empty procedureMinuend (.wrongType .minuend (.arrow .int .bool)) p H s :=
  ⟨rfl, by decide, typeIn_error_blames rfl⟩

end TypedLet
