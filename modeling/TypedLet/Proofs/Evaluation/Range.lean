import TypedLet.Proofs.Evaluation.Visits

/-!
# Integers stay in range

Every integer that a scope holds, in whatever frame and in the scopes of however many closures, is asked
to lie in the range of 64 bits. Then all integers of an evaluation do: those in the scopes that it
makes and those in the values that it gives. The arithmetic wraps, a literal is checked, and everything
else only hands values on. The frame of a recursive procedure holds a closure over that very frame, so the
integers of a scope are not counted by going down it: what it holds is told by steps from scope to scope.
-/

namespace TypedLet

/-! ## What a scope holds -/

/-- What the frames stand for, the newest first and hidden ones included. -/
def Scope.bindings {α ρ : Type} : Scope α ρ → List (Binding α ρ)
  | empty => []
  | extend _ a outer => .plain a :: outer.bindings
  | reserve _ outer => outer.bindings
  | extendRec n r outer => .recursive r (extendRec n r outer) :: outer.bindings

theorem Scope.mem_bindings_of_lookup {α ρ : Type} {s : Scope α ρ} {x : String} {b : Binding α ρ}
    (h : s.lookup x = some b) : b ∈ s.bindings := by
  induction s with
  | empty => cases h
  | extend n a outer ih =>
      by_cases hnx : n = x
      · subst hnx
        rw [lookup_extend_self, Option.some.injEq] at h
        exact h ▸ List.mem_cons_self
      · rw [lookup_extend_of_ne outer a hnx] at h
        exact List.mem_cons_of_mem _ (ih h)
  | reserve n outer ih =>
      by_cases hnx : n = x
      · subst hnx
        rw [lookup_reserve_self] at h
        cases h
      · rw [lookup_reserve_of_ne outer hnx] at h
        exact ih h
  | extendRec n r outer ih =>
      by_cases hnx : n = x
      · subst hnx
        rw [lookup_extendRec_self, Option.some.injEq] at h
        exact h ▸ List.mem_cons_self
      · rw [lookup_extendRec_of_ne outer r hnx] at h
        exact List.mem_cons_of_mem _ (ih h)

namespace ValueScope

/-- The values in the frames of the scope. -/
def values (scope : ValueScope) : List Value := scope.bindings.map Value.ofBinding

theorem mem_values_of_value? {scope : ValueScope} {x : String} {v : Value}
    (h : scope.value? x = some v) : v ∈ scope.values := by
  obtain ⟨b, hb, rfl⟩ := Option.map_eq_some_iff.1 h
  exact List.mem_map_of_mem (Scope.mem_bindings_of_lookup hb)

/-- The scope holds the value: it is in a frame, or the scope of a closure in a frame holds it. -/
inductive Holds : ValueScope → Value → Prop where
  | frame {scope v} (hv : v ∈ values scope) : Holds scope v
  | captured {scope code home v} (hclosure : .closure code home ∈ values scope) (h : Holds home v) :
      Holds scope v

/-- Every integer that the scope holds lies in the range. -/
def InRange (scope : ValueScope) : Prop :=
  ∀ n, scope.Holds (.int n) → Word64.Fits n

end ValueScope

/-- The integer, or every integer that the scope of the closure holds, lies in the range. -/
def Value.InRange : Value → Prop
  | .int n => Word64.Fits n
  | .bool _ => True
  | .closure _ home => ValueScope.InRange home

namespace ValueScope

variable {scope : ValueScope}

theorem InRange.of_values (h : ∀ v ∈ scope.values, v.InRange) : scope.InRange := by
  intro n hn
  cases hn with
  | frame hv => exact h _ hv
  | captured hclosure hin => exact h _ hclosure n hin

theorem InRange.value (h : scope.InRange) {v : Value} (hv : v ∈ scope.values) : v.InRange := by
  cases v with
  | int n => exact h n (.frame hv)
  | bool b => trivial
  | closure code home => exact fun n hn => h n (.captured hv hn)

theorem inRange_empty : InRange .empty := .of_values fun v hv => by simp [values, Scope.bindings] at hv

theorem InRange.extend (h : scope.InRange) {v : Value} (hv : v.InRange) (x : String) :
    InRange (scope.extend x v) :=
  .of_values (List.forall_mem_cons.2 ⟨hv, fun _ hw => h.value hw⟩)

/-- The closure in the frame leads back to the frame, so each step from there is a step from the scope. -/
theorem InRange.extendRec (h : scope.InRange) (f : String) (code : Procedure) :
    InRange (scope.extendRec f code) := by
  intro n hn
  generalize hs : scope.extendRec f code = inner at hn
  generalize hv : Value.int n = v at hn
  induction hn with
  | frame hmem =>
      subst hs hv
      rcases List.mem_cons.1 hmem with hself | hmem
      · cases hself
      · exact h.value hmem
  | captured hmem hin ih =>
      subst hs
      rcases List.mem_cons.1 hmem with hself | hmem
      · cases hself
        exact ih rfl hv
      · subst hv
        exact h.value hmem n hin

end ValueScope

/-! ## Evaluations stay in range -/

theorem invariant_inRange : Invariant (fun _ => True) ValueScope.InRange Value.InRange where
  hereditary := Expr.hereditary_true
  int := id
  bool := fun _ => trivial
  closure := ⟨fun h => ⟨trivial, h⟩, And.right⟩
  value? := fun hscope hx => hscope.value (ValueScope.mem_values_of_value? hx)
  extend := fun hscope hv x => hscope.extend hv x
  extendRec := fun hscope _ f => hscope.extendRec f _

/-- No integer out of range ever exists. If every integer that a scope holds lies in the range, then this
is so for all that an evaluation there visits, typed or not and under all limits: every scope that it
makes, with the variables and arguments bound in it, holds integers of the range alone, and so does every
value that comes of an evaluation inside it or of the whole. -/
theorem evaluate_inRange {scope : ValueScope} (hscope : scope.InRange) (e : Expr) (limits : Limits)
    (before : Nat) :
    (∀ c, Configuration.Visits limits ⟨1, before, scope, e⟩ c →
      c.scope.InRange ∧ ∀ fuel v n, c.run limits fuel = some ⟨.ok v, n⟩ → v.InRange) ∧
    ∀ fuel v n, evaluate fuel limits scope e before = some ⟨.ok v, n⟩ → v.InRange := by
  have hvisited : ∀ c, Configuration.Visits limits ⟨1, before, scope, e⟩ c →
      c.scope.InRange ∧ ∀ fuel v n, c.run limits fuel = some ⟨.ok v, n⟩ → v.InRange := by
    intro c hvisits
    obtain ⟨-, hin⟩ := invariant_inRange.visits hvisits ⟨trivial, hscope⟩
    exact ⟨hin, fun fuel v n hrun => invariant_inRange.evalFrom hrun trivial hin⟩
  exact ⟨hvisited, fun fuel v n hrun => (hvisited _ .refl).2 fuel v n hrun⟩

/-! ### The ends of the range -/

/-- A scope with the least integer, and a recursive procedure that negates it. -/
def leastScope : ValueScope :=
  .extendRec "f" ⟨"x", .bool, .negate (.identifier "n")⟩ (.extend "n" (.int Word64.least) .empty)

/-- The difference of what the procedure gives and one. -/
def belowLeast : Expr :=
  .letIn "m" (.apply (.identifier "f") (.bool true)) (.subtract (.identifier "m") (.number "1"))

/-- Negated, the least integer is itself, and one less than it is the greatest one. -/
theorem belowLeast_evaluate_inRange :
    leastScope.InRange ∧
      ValueScope.InRange (leastScope.extend "m" (.int Word64.least)) ∧
      evaluate 10 ⟨none, none⟩ leastScope belowLeast 0 = some ⟨.ok (.int Word64.greatest), 9⟩ ∧
      (Value.int Word64.greatest).InRange := by
  have hscope : leastScope.InRange :=
    (ValueScope.inRange_empty.extend (v := .int Word64.least) ⟨Int.le_refl _, by decide⟩ "n").extendRec _ _
  have hturn : turn (evalFrom ⟨none, none⟩ 9 2) 1 leastScope belowLeast =
      some (.goesOn (leastScope.extend "m" (.int Word64.least))
        (.subtract (.identifier "m") (.number "1")) 6) := rfl
  have hrun : evaluate 10 ⟨none, none⟩ leastScope belowLeast 0 =
      some ⟨.ok (.int Word64.greatest), 9⟩ := rfl
  obtain ⟨hvisited, hvalue⟩ := evaluate_inRange hscope belowLeast ⟨none, none⟩ 0
  exact ⟨hscope, (hvisited _ (.single (.last rfl hturn))).1, hrun, hvalue 10 _ 9 hrun⟩

end TypedLet
