import TypedLet.Program
import TypedLet.Proofs.Expr.RoundTrip
import TypedLet.Proofs.Typing.Soundness

/-!
# Typed programs without `letrec` end

An expression that has a type and no `letrec` ends without any limit. No size of expressions shows it,
since a call goes on with a body from elsewhere. What decreases is the type: a value is reducible at an
arrow when a call of it on any argument that is reducible at the domain ends, and ends reducible at the
codomain. An expression whose scope is reducible ends, by induction on the expression. Given closures
are reducible as long as none of them captures itself, by induction on their size.
-/

namespace TypedLet

/-! ## Expressions that end -/

/-- The expression ends without any limit, in an error or in a value with the property. -/
inductive Expr.Ends (P : Value → Prop) (scope : ValueScope) (e : Expr) : Prop where
  | value {v n} (h : BigStep scope e (.ok v) n) (hv : P v)
  | error {err n} (h : BigStep scope e (.error err) n)

/-- An expression ends as the one that takes its place does. -/
theorem Expr.Ends.of_last {P : Value → Prop} {scope scope' : ValueScope} {e e' : Expr}
    (h : e'.Ends P scope') (hrule : ∀ r m, BigStep scope' e' r m → ∃ n, BigStep scope e r n) :
    e.Ends P scope := by
  cases h with
  | value h hv =>
      obtain ⟨n, h⟩ := hrule _ _ h
      exact .value h hv
  | error h =>
      obtain ⟨n, h⟩ := hrule _ _ h
      exact .error h

/-! ## Reducible values -/

/-- The value has the shape that the type calls for, and its calls on reducible arguments end. -/
def Value.Reducible : Value → Ty → Prop
  | v, .int => ∃ n, v = .int n
  | v, .bool => ∃ b, v = .bool b
  | v, .arrow domain codomain =>
    ∃ code home, v = .closure code home ∧
      ∀ w, Reducible w domain →
        code.body.Ends (fun u => Reducible u codomain) (home.extend code.param w)

/-! ## Expressions without `letrec` -/

/-- Whether the expression declares no recursive procedure anywhere. -/
def Expr.noLetrec : Expr → Bool
  | number _ | bool _ | identifier _ => true
  | negate e | isZero e | proc _ _ e => e.noLetrec
  | subtract e₁ e₂ | letIn _ e₁ e₂ | apply e₁ e₂ | assert e₁ e₂ _ => e₁.noLetrec && e₂.noLetrec
  | ite e₁ e₂ e₃ => e₁.noLetrec && e₂.noLetrec && e₃.noLetrec
  | letrec .. => false

/-- A typed expression without `letrec` ends in a scope of reducible values. -/
theorem Expr.ends_of_reducible {e : Expr} (he : e.noLetrec = true) {scope : ValueScope} {G : TyScope}
    {t : Ty} (ht : e.typeIn G = .ok t) (hG : scope.AgreesBy Value.Reducible G) :
    e.Ends (·.Reducible t) scope := by
  induction e generalizing scope G t with
  | number text =>
      cases typeIn_number.mp ht
      by_cases hn : Numeral.isNumeral text = true
      · by_cases hf : Word64.Fits (Numeral.value text)
        · exact .value (.number hn hf) ⟨_, rfl⟩
        · exact .error (.number_overflow hn hf)
      · exact .error (.number_noNumeral (Bool.not_eq_true _ ▸ hn))
  | bool b =>
      cases typeIn_bool.mp ht
      exact .value .bool ⟨b, rfl⟩
  | negate d ih =>
      obtain ⟨hd, rfl⟩ := typeIn_negate.mp ht
      cases ih he hd hG with
      | error h => exact .error (.negate_fails h)
      | value h hv =>
          obtain ⟨i, rfl⟩ := hv
          exact .value (.negate h) ⟨_, rfl⟩
  | subtract d₁ d₂ ih₁ ih₂ =>
      obtain ⟨h₁, h₂, rfl⟩ := typeIn_subtract.mp ht
      rw [noLetrec, Bool.and_eq_true] at he
      cases ih₁ he.1 h₁ hG with
      | error h => exact .error (.subtract_fails_left h)
      | value h hv =>
          obtain ⟨i, rfl⟩ := hv
          cases ih₂ he.2 h₂ hG with
          | error k => exact .error (.subtract_fails_right h k)
          | value k hw =>
              obtain ⟨j, rfl⟩ := hw
              exact .value (.subtract h k) ⟨_, rfl⟩
  | isZero d ih =>
      obtain ⟨hd, rfl⟩ := typeIn_isZero.mp ht
      cases ih he hd hG with
      | error h => exact .error (.isZero_fails h)
      | value h hv =>
          obtain ⟨i, rfl⟩ := hv
          exact .value (.isZero h) ⟨_, rfl⟩
  | ite d d₁ d₂ ih ih₁ ih₂ =>
      obtain ⟨hd, h₁, h₂⟩ := typeIn_ite.mp ht
      rw [noLetrec, Bool.and_eq_true, Bool.and_eq_true] at he
      cases ih he.1.1 hd hG with
      | error h => exact .error (.ite_fails h)
      | value h hv =>
          obtain ⟨b, rfl⟩ := hv
          cases b with
          | true => exact (ih₁ he.1.2 h₁ hG).of_last fun _ _ k => ⟨_, .ite_then h k⟩
          | false => exact (ih₂ he.2 h₂ hG).of_last fun _ _ k => ⟨_, .ite_else h k⟩
  | identifier x =>
      obtain ⟨v, hx, hv⟩ := hG x t (typeIn_identifier.mp ht)
      exact .value (.identifier hx) hv
  | letIn x d₁ d₂ ih₁ ih₂ =>
      obtain ⟨s, h₁, h₂⟩ := typeIn_letIn.mp ht
      rw [noLetrec, Bool.and_eq_true] at he
      cases ih₁ he.1 h₁ hG with
      | error h => exact .error (.letIn_fails h)
      | value h hv => exact (ih₂ he.2 h₂ (hG.extend hv)).of_last fun _ _ k => ⟨_, .letIn h k⟩
  | proc x s d ih =>
      obtain ⟨u, hd, rfl⟩ := typeIn_proc.mp ht
      exact .value .proc ⟨_, _, rfl, fun w hw => ih he hd (hG.extend hw)⟩
  | apply d₁ d₂ ih₁ ih₂ =>
      obtain ⟨s, h₁, h₂⟩ := typeIn_apply.mp ht
      rw [noLetrec, Bool.and_eq_true] at he
      cases ih₁ he.1 h₁ hG with
      | error h => exact .error (.apply_fails h)
      | value h hv =>
          -- That the call ends is what it means for the closure to be reducible.
          obtain ⟨code, home, rfl, hcalls⟩ := hv
          cases ih₂ he.2 h₂ hG with
          | error k => exact .error (.apply_fails_argument h k)
          | value k hw => exact (hcalls _ hw).of_last fun _ _ hbody => ⟨_, .apply h k hbody⟩
  | letrec => cases he
  | assert d₁ d₂ line ih₁ ih₂ =>
      obtain ⟨h₁, h₂⟩ := typeIn_assert.mp ht
      rw [noLetrec, Bool.and_eq_true] at he
      cases ih₁ he.1 h₁ hG with
      | error h => exact .error (.assert_fails h)
      | value h hv =>
          obtain ⟨b, rfl⟩ := hv
          cases b with
          | true => exact (ih₂ he.2 h₂ hG).of_last fun _ _ k => ⟨_, .assert h k⟩
          | false => exact .error (.assert_false h)

/-! ## Closures that do not capture themselves -/

namespace ValueScope

/-- No closure that the scope leads to is one that its own scope leads to. -/
def Acyclic (scope : ValueScope) : Prop :=
  ∀ (code : Procedure) (home : ValueScope),
    scope.Reaches (.closure code home) → ¬ home.Reaches (.closure code home)

variable {scope : ValueScope}

theorem Acyclic.inside (h : scope.Acyclic) {x : String} {code : Procedure} {home : ValueScope}
    (hx : scope.value? x = some (.closure code home)) : home.Acyclic :=
  fun code' home' hreach => h code' home' (.inside hx hreach)

/-- A value that a name stands for is part of the scope, unless it is a closure over that scope. -/
theorem sizeOf_lt_of_value? {x : String} {v : Value} (hx : scope.value? x = some v)
    (hv : ∀ code home, v = .closure code home → ¬ ValueScope.Reaches home v) :
    sizeOf v < sizeOf scope := by
  induction scope with
  | empty => simp at hx
  | extend n w outer ih =>
      by_cases hnx : n = x
      · subst hnx
        rw [value?_extend_self, Option.some.injEq] at hx
        subst hx
        simp only [Scope.extend.sizeOf_spec]
        omega
      · rw [value?_extend_of_ne outer w hnx] at hx
        have := ih hx
        simp only [Scope.extend.sizeOf_spec]
        omega
  | reserve n outer ih =>
      by_cases hnx : n = x
      · subst hnx
        simp [value?] at hx
      · have hx : ValueScope.value? outer x = some v := by
          rwa [value?, Scope.lookup_reserve_of_ne outer hnx] at hx
        have := ih hx
        simp only [Scope.reserve.sizeOf_spec]
        omega
  | extendRec n code outer ih =>
      by_cases hnx : n = x
      · subst hnx
        have hself := hx
        rw [value?_extendRec_self, Option.some.injEq] at hself
        exact absurd (.here hx) (hv _ _ hself.symm)
      · rw [value?_extendRec_of_ne outer code hnx] at hx
        have := ih hx
        simp only [Scope.extendRec.sizeOf_spec]
        omega

theorem Acyclic.sizeOf_lt (h : scope.Acyclic) {v : Value} (hreach : scope.Reaches v) :
    sizeOf v < sizeOf scope := by
  induction hreach with
  | here hx =>
      exact sizeOf_lt_of_value? hx fun code home heq => heq ▸ h code home (heq ▸ .here hx)
  | @inside scope x code home v hx _ ih =>
      have hclosure : sizeOf (Value.closure code home) < sizeOf scope :=
        sizeOf_lt_of_value? hx fun code' home' heq => by
          cases heq
          exact h code home (.here hx)
      have hin := ih (h.inside hx)
      rw [Value.closure.sizeOf_spec] at hclosure
      omega

/-- A closure over an acyclic scope is larger than all that the scope leads to. -/
theorem Acyclic.of_value? (h : ∀ (x : String) (code : Procedure) (home : ValueScope),
    scope.value? x = some (.closure code home) → home.Acyclic) : scope.Acyclic := by
  intro code home hreach
  cases hreach with
  | here hx =>
      intro hself
      have hlt := (h _ _ _ hx).sizeOf_lt hself
      rw [Value.closure.sizeOf_spec] at hlt
      omega
  | inside hx hin => exact h _ _ _ hx code home hin

theorem acyclic_empty : Acyclic .empty :=
  .of_value? fun x code home hx => by simp at hx

theorem Acyclic.extend (h : scope.Acyclic) {x : String} {v : Value}
    (hv : ∀ (code : Procedure) (home : ValueScope), v = .closure code home → home.Acyclic) :
    Acyclic (scope.extend x v) := by
  refine .of_value? fun y code home hy => ?_
  by_cases hxy : x = y
  · subst hxy
    rw [value?_extend_self, Option.some.injEq] at hy
    exact hv code home hy
  · rw [value?_extend_of_ne scope v hxy] at hy
    exact h.inside hy

/-- Given values of the types that the type scope binds are reducible. -/
theorem Agrees.reducible {G : TyScope} (hG : scope.Agrees G) (hbodies : scope.Bodies (·.noLetrec = true))
    (hacyclic : scope.Acyclic) : scope.AgreesBy Value.Reducible G := by
  induction hsize : sizeOf scope using Nat.strongRecOn generalizing scope G with
  | ind n ih =>
      subst hsize
      intro x t hx
      obtain ⟨v, hv, ht⟩ := hG x t hx
      refine ⟨v, hv, ?_⟩
      cases t with
      | int => exact ht.eq_int
      | bool => exact ht.eq_bool
      | arrow domain codomain =>
          obtain ⟨code, home, rfl⟩ := ht.eq_closure
          obtain ⟨-, H, hH, hbody⟩ := ht.rule
          obtain ⟨hletrec, hhome⟩ := hbodies.value? hv
          have hsmaller : sizeOf home < sizeOf scope := by
            have hlt := hacyclic.sizeOf_lt (.here hv)
            rw [Value.closure.sizeOf_spec] at hlt
            omega
          have hred := ih _ hsmaller hH hhome (hacyclic.inside hv) rfl
          exact ⟨code, home, rfl, fun w hw => Expr.ends_of_reducible hletrec hbody (hred.extend hw)⟩

end ValueScope

/-! ## Programs without the word `letrec` -/

theorem Expr.noLetrec_of_phrase {ts : List Token} {e : Expr} (h : ExprPhrase ts e)
    (hts : ∀ t ∈ ts, t.kind ≠ .kwLetrec) : e.noLetrec = true := by
  induction h with
  | letrec hk => exact absurd hk (hts _ List.mem_cons_self)
  | number | true | false | name => rfl
  | _ => simp_all [noLetrec, or_imp, forall_and]

theorem Expr.allNumerals_of_isPrintable {e : Expr} (h : e.isPrintable = true) :
    e.allNumerals = true := by
  induction e with
  | number text => exact Text.isNumeral_of_isDigits h
  | _ => simp_all [isPrintable, allNumerals]

theorem Expr.noLetrec_of_ofSource {source : String} {s : TokenStream} {e : Expr}
    (htokens : tokenize source = .ok s) (hword : ∀ t ∈ s.pending, t.text ≠ "letrec")
    (he : ofSource source = .ok e) : e.noLetrec = true := by
  obtain ⟨s', htokens', hphrase⟩ := ofSource_eq_ok.1 he
  rw [htokens, Except.ok.injEq] at htokens'
  subst htokens'
  refine noLetrec_of_phrase hphrase fun t ht hkind => hword t ht ?_
  obtain ⟨us, hus, htext⟩ := tokenize_lexemes htokens t ht
  rw [htext]
  exact (hus.kind_eq_iff_of_keyword (p := ("letrec", .kwLetrec)) (by decide)).1 hkind

/-- A typed program comes to what its expression comes to in the empty scope. -/
theorem runSource_eq {source : String} {e : Expr} {t : Ty} (hsource : Expr.ofSource source = .ok e)
    (ht : e.typeIn .empty = .ok t) (fuel : Nat) (limits : Limits) :
    runSource fuel limits [] source =
      (evaluate fuel limits .empty e 0).map fun run =>
        match run.result with
        | .ok v => .ok ⟨v, t⟩
        | .error err => .error (.runtime err) := by
  rw [runSource, hsource]
  dsimp only
  unfold Expr.run
  split
  · rename_i herror
    cases ht.symm.trans herror
  · rename_i hok
    cases ht.symm.trans hok
    rfl

/-! ## Termination -/

theorem Expr.Ends.admitted {P : Value → Prop} {scope : ValueScope} {G : TyScope} {e : Expr} {t : Ty}
    (h : e.Ends P scope) (ht : e.typeIn G = .ok t) (hG : scope.Agrees G) (he : e.allNumerals = true)
    (hscope : scope.Bodies (·.allNumerals = true)) : ∃ r n, BigStep scope e r n ∧ t.Admits r := by
  cases h with
  | value h _ | error h => exact ⟨_, _, h, h.admitted ht hG he hscope⟩

/-- An expression that has a type and declares no recursive procedure ends without any limit after some
number of steps, in a value of the type, in an overflow or in a failed assertion, as long as the given
closures declare none either and do not capture themselves. So every program that has a type and in which
the word `letrec` does not stand can be run without a limit. -/
theorem evaluate_terminates :
    (∀ (G : TyScope) (scope : ValueScope) (e : Expr) (t : Ty), e.typeIn G = .ok t → scope.Agrees G →
      e.noLetrec = true → e.allNumerals = true → scope.Bodies (·.noLetrec = true) →
      scope.Bodies (·.allNumerals = true) → scope.Acyclic →
      ∃ r n, t.Admits r ∧ ∀ fuel, n ≤ fuel → evaluate fuel ⟨none, none⟩ scope e 0 = some ⟨r, n⟩) ∧
    (∀ (source : String) (s : TokenStream) (e : Expr) (t : Ty), tokenize source = .ok s →
      (∀ token ∈ s.pending, token.text ≠ "letrec") → Expr.ofSource source = .ok e →
      e.typeIn .empty = .ok t →
      ∃ outcome n, (∀ fuel, n ≤ fuel → runSource fuel ⟨none, none⟩ [] source = some outcome) ∧
        ((∃ v, outcome = .ok ⟨v, t⟩ ∧ v.HasType t) ∨
          ∃ err, outcome = .error (.runtime err) ∧
            (err.kind = .overflow ∨ err.kind = .assertionFailed))) := by
  have hgeneral : ∀ (G : TyScope) (scope : ValueScope) (e : Expr) (t : Ty), e.typeIn G = .ok t →
      scope.Agrees G → e.noLetrec = true → e.allNumerals = true → scope.Bodies (·.noLetrec = true) →
      scope.Bodies (·.allNumerals = true) → scope.Acyclic →
      ∃ r n, t.Admits r ∧
        ∀ fuel, n ≤ fuel → evaluate fuel ⟨none, none⟩ scope e 0 = some ⟨r, n⟩ := by
    intro G scope e t ht hG hletrec hnumerals hletrecs hscope hacyclic
    have hends := Expr.ends_of_reducible hletrec ht (hG.reducible hletrecs hacyclic)
    obtain ⟨r, n, hd, hadmits⟩ := hends.admitted ht hG hnumerals hscope
    refine ⟨r, n, hadmits, fun fuel hfuel => ?_⟩
    rw [evaluate, hd.evalFrom_eq hfuel, Nat.zero_add]
  refine ⟨hgeneral, fun source s e t htokens hword hsource ht => ?_⟩
  have hnumerals := Expr.allNumerals_of_isPrintable (Expr.isPrintable_of_ofSource hsource)
  obtain ⟨r, n, hadmits, hrun⟩ := hgeneral .empty .empty e t ht (ValueScope.agrees_empty .empty)
    (Expr.noLetrec_of_ofSource htokens hword hsource) hnumerals ValueScope.bodies_empty
    ValueScope.bodies_empty ValueScope.acyclic_empty
  cases r with
  | ok v =>
      refine ⟨.ok ⟨v, t⟩, n, fun fuel hfuel => ?_, .inl ⟨v, rfl, hadmits⟩⟩
      rw [runSource_eq hsource ht, hrun fuel hfuel]
      rfl
  | error err =>
      refine ⟨.error (.runtime err), n, fun fuel hfuel => ?_, .inr ⟨err, rfl, hadmits⟩⟩
      rw [runSource_eq hsource ht, hrun fuel hfuel]
      rfl

/-! ### A given procedure and a program that calls one -/

/-- The procedure that takes one off its argument. -/
def predecessor : Procedure := ⟨"n", .int, .subtract (.identifier "n") (.number "1")⟩

def predecessorTypes : TyScope := .extend "f" (.arrow .int .int) .empty

def predecessorScope : ValueScope := .extend "f" (.closure predecessor .empty) .empty

theorem predecessor_evaluate_terminates :
    (∃ r n, Ty.int.Admits r ∧ ∀ fuel, n ≤ fuel →
      evaluate fuel ⟨none, none⟩ predecessorScope (.apply (.identifier "f") (.number "3")) 0 =
        some ⟨r, n⟩) ∧
    ∃ outcome n,
      (∀ fuel, n ≤ fuel → runSource fuel ⟨none, none⟩ [] "(proc (x: int) x 5)" = some outcome) ∧
        ((∃ v, outcome = .ok ⟨v, .int⟩ ∧ v.HasType .int) ∨
          ∃ err, outcome = .error (.runtime err) ∧
            (err.kind = .overflow ∨ err.kind = .assertionFailed)) := by
  obtain ⟨hgeneral, hsource⟩ := evaluate_terminates
  constructor
  · have hclosure : (Value.closure predecessor .empty).HasType (.arrow .int .int) :=
      Value.hasType_closure (ValueScope.agrees_empty .empty) rfl
    have hG : predecessorScope.Agrees predecessorTypes :=
      (ValueScope.agrees_empty .empty).extend hclosure
    have hletrecs : predecessorScope.Bodies (·.noLetrec = true) :=
      ValueScope.bodies_empty.extend ⟨rfl, ValueScope.bodies_empty⟩
    have hscope : predecessorScope.Bodies (·.allNumerals = true) :=
      ValueScope.bodies_empty.extend ⟨rfl, ValueScope.bodies_empty⟩
    have hacyclic : predecessorScope.Acyclic :=
      ValueScope.acyclic_empty.extend fun _ _ heq => by
        cases heq
        exact ValueScope.acyclic_empty
    exact hgeneral predecessorTypes predecessorScope _ .int rfl hG rfl rfl hletrecs hscope hacyclic
  · have htokens : tokenize "(proc (x: int) x 5)" = .ok ⟨[⟨.openParen, "(", ⟨1, 1⟩⟩,
        ⟨.kwProc, "proc", ⟨1, 2⟩⟩, ⟨.openParen, "(", ⟨1, 7⟩⟩, ⟨.name, "x", ⟨1, 8⟩⟩,
        ⟨.colon, ":", ⟨1, 9⟩⟩, ⟨.kwInt, "int", ⟨1, 11⟩⟩, ⟨.closeParen, ")", ⟨1, 14⟩⟩,
        ⟨.name, "x", ⟨1, 16⟩⟩, ⟨.number, "5", ⟨1, 18⟩⟩, ⟨.closeParen, ")", ⟨1, 19⟩⟩],
        .endAt ⟨1, 20⟩, rfl⟩ := by decide +kernel
    have hprogram : Expr.ofSource "(proc (x: int) x 5)" =
        .ok (.apply (.proc "x" .int (.identifier "x")) (.number "5")) := by decide +kernel
    exact hsource _ _ _ .int htokens (by decide) hprogram rfl

end TypedLet
