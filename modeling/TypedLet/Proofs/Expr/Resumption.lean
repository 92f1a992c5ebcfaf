import Mathlib.Data.List.Forall2
import Mathlib.Logic.Function.Iterate
import TypedLet.Proofs.Expr.Locality
import TypedLet.Proofs.Expr.ViablePrefix

/-!
# Calling one parser again

A parser can be called again, whether it has failed or not, and goes on at the token where it stopped. It
never goes back and never passes the first token that ends the input, and a call that takes no token fails
for good.
-/

namespace TypedLet

/-! ## Lists of tokens and streams -/

namespace TokenStream

variable {tokens ts : List Token} {s r : TokenStream}

theorem prepend_inj (h : r.prepend ts = s.prepend ts) : r = s := by
  obtain ⟨pending, finish, hfinish⟩ := r
  obtain ⟨pending', finish', hfinish'⟩ := s
  simpa [prepend] using h

theorem ofTokens?_append (hts : ∀ t ∈ ts, t.kind ≠ .finish) (us : List Token) :
    ofTokens? (ts ++ us) = (ofTokens? us).map (prepend ts) := by
  induction ts with
  | nil =>
      have hid : prepend [] = id := rfl
      rw [List.nil_append, hid, Option.map_id]
      rfl
  | cons t ts ih =>
      obtain ⟨ht, hts⟩ := List.forall_mem_cons.1 hts
      rw [List.cons_append, ofTokens?, dif_neg ht, ih hts, Option.map_map]
      rfl

theorem ofTokens?_finish {finish : Token} (h : finish.kind = .finish) (more : List Token) :
    ofTokens? (finish :: more) = some ⟨[], finish, h⟩ := by
  rw [ofTokens?, dif_pos h]

theorem head_of_ofTokens? {t : Token} (h : ofTokens? (t :: ts) = some s) : s.head = t := by
  rw [ofTokens?] at h
  by_cases ht : t.kind = .finish
  · rw [dif_pos ht] at h
    cases h
    rfl
  · rw [dif_neg ht] at h
    obtain ⟨r, -, rfl⟩ := Option.map_eq_some_iff.1 h
    rfl

theorem eq_append_of_ofTokens? (h : ofTokens? tokens = some s) :
    ∃ more, tokens = s.pending ++ s.finish :: more := by
  obtain ⟨more, hmore⟩ := tokens_prefix_of_ofTokens? h
  exact ⟨more, by rw [← hmore, TokenStream.tokens, List.append_assoc, List.singleton_append]⟩

theorem kind_ne_finish_of_ofTokens? (h : ofTokens? tokens = some s) :
    ∀ t ∈ s.pending, t.kind ≠ .finish := by
  obtain ⟨more, rfl⟩ := eq_append_of_ofTokens? h
  obtain ⟨s', hs', hpending⟩ := exists_ofTokens?
    ⟨s.finish, List.mem_append_right _ List.mem_cons_self, s.finish_kind⟩
  rw [Option.some.inj (h.symm.trans hs'), hpending]
  exact fun t ht => by simpa using List.mem_takeWhile_imp ht

theorem length_pending_eq_findIdx (h : ofTokens? tokens = some s) :
    s.pending.length = tokens.findIdx (·.kind = .finish) := by
  induction tokens generalizing s with
  | nil => cases h
  | cons t ts ih =>
      rw [ofTokens?] at h
      by_cases ht : t.kind = .finish
      · rw [dif_pos ht] at h
        cases h
        simp [List.findIdx_cons, ht]
      · rw [dif_neg ht] at h
        obtain ⟨r, hr, rfl⟩ := Option.map_eq_some_iff.1 h
        simp [List.findIdx_cons, ht, ih hr]

theorem ofTokens?_drop (h : ofTokens? tokens = some (r.prepend ts)) :
    ofTokens? (tokens.drop ts.length) = some r := by
  have hts : ∀ t ∈ ts, t.kind ≠ .finish := fun t ht =>
    kind_ne_finish_of_ofTokens? h t (List.mem_append_left _ ht)
  obtain ⟨more, hmore⟩ := tokens_prefix_of_ofTokens? h
  rw [tokens_prepend, List.append_assoc] at hmore
  rw [← hmore, ofTokens?_append hts] at h
  obtain ⟨r', hr', heq⟩ := Option.map_eq_some_iff.1 h
  rw [← hmore, List.drop_left, hr']
  rw [prepend_inj heq]

/-- A list that starts with the same tokens, up to the one at the front of the rest, makes a stream that
starts with them, too. -/
theorem exists_ofTokens?_of_take_eq {others : List Token} (h : ofTokens? tokens = some (r.prepend ts))
    (htake : others.take (ts.length + 1) = tokens.take (ts.length + 1))
    (hfinish : ∃ t ∈ others, t.kind = .finish) :
    ∃ r' : TokenStream, ofTokens? others = some (r'.prepend ts) ∧ r'.head = r.head := by
  have hts : ∀ t ∈ ts, t.kind ≠ .finish := fun t ht =>
    kind_ne_finish_of_ofTokens? h t (List.mem_append_left _ ht)
  have hprefix : ts ++ [r.head] <+: tokens := by
    refine .trans ?_ (tokens_prefix_of_ofTokens? h)
    rw [tokens_prepend]
    exact (List.prefix_append_right_inj ts).2 r.head_prefix_tokens
  have hfront : tokens.take (ts.length + 1) = ts ++ [r.head] := by
    have hlength := List.prefix_iff_eq_take.1 hprefix
    rw [List.length_append, List.length_singleton] at hlength
    exact hlength.symm
  obtain ⟨us, rfl⟩ : ∃ us, others = ts ++ r.head :: us := by
    refine ⟨others.drop (ts.length + 1), ?_⟩
    rw [List.append_cons, ← hfront, ← htake, List.take_append_drop]
  have hrest : ∃ t ∈ r.head :: us, t.kind = .finish := by
    obtain ⟨t, ht, hkind⟩ := hfinish
    rcases List.mem_append.1 ht with hmem | hmem
    · exact absurd hkind (hts t hmem)
    · exact ⟨t, hmem, hkind⟩
  obtain ⟨r', hr', -⟩ := exists_ofTokens? hrest
  exact ⟨r', by rw [ofTokens?_append hts, hr', Option.map_some], head_of_ofTokens? hr'⟩

end TokenStream

theorem TyPhrase.kind_ne_finish {ts : List Token} {t : Ty} (h : TyPhrase ts t) :
    ∀ k ∈ ts, k.kind ≠ .finish := by
  induction h <;> simp_all [or_imp]

theorem ExprPhrase.kind_ne_finish {ts : List Token} {e : Expr} (h : ExprPhrase ts e) :
    ∀ k ∈ ts, k.kind ≠ .finish := by
  induction h with
  | proc hk ho hx hn ht hc hb ihb =>
      have htype := ht.kind_ne_finish
      simp_all [or_imp]
  | letrec hk hr hf ho hx hn ht hc hb hi hl ihb ihl =>
      have hreturn := hr.kind_ne_finish
      have htype := ht.kind_ne_finish
      simp_all [or_imp]
  | _ => simp_all [or_imp]

theorem ParseError.message_noExpression_of_finish {t : Token} (h : t.kind = .finish) :
    (noExpression t).message = "Unexpected end of input" ++ " at " ++ t.position.render := by
  change (if t.kind = .finish then "Unexpected end of input" else "Unexpected token " ++ t.describe) ++
    " at " ++ t.position.render = _
  rw [if_pos h]

theorem kind_ne_finish_of_phrases {parts : List (List Token)} {es : List Expr}
    (h : List.Forall₂ ExprPhrase parts es) : ∀ t ∈ parts.flatten, t.kind ≠ .finish := by
  induction h with
  | nil => simp
  | cons hphrase _ ih => exact List.forall_mem_append.2 ⟨hphrase.kind_ne_finish, ih⟩

namespace Parser

open TokenStream

variable {s r : TokenStream} {ts : List Token} {e : Expr} {n : Nat}

/-! ## Calls of one parser -/

/-- What is left after `n` calls. -/
def after (n : Nat) (s : TokenStream) : TokenStream := (fun s => (program s).2)^[n] s

/-- What the call after `n` calls gives. -/
def result (n : Nat) (s : TokenStream) : Except ParseError Expr := (program (after n s)).1

/-- How many tokens `n` calls take, which is the index of the token where the last one stops. -/
def taken (n : Nat) (s : TokenStream) : Nat := s.pending.length - (after n s).pending.length

theorem after_succ (n : Nat) (s : TokenStream) : after (n + 1) s = after n (program s).2 := rfl

theorem after_succ' (n : Nat) (s : TokenStream) : after (n + 1) s = (program (after n s)).2 :=
  Function.iterate_succ_apply' ..

theorem result_zero (s : TokenStream) : result 0 s = (program s).1 := rfl

theorem result_succ (n : Nat) (s : TokenStream) : result (n + 1) s = result n (program s).2 := rfl

theorem result_add (n m : Nat) (s : TokenStream) : result (n + m) s = result m (after n s) := by
  rw [result, Nat.add_comm, after, Function.iterate_add_apply]
  rfl

/-- Calls take tokens off the front, and look at none behind the one where the last of them stops. -/
theorem after_local (n : Nat) (s : TokenStream) :
    ∃ ts, s = (after n s).prepend ts ∧ ∀ r : TokenStream, r.head = (after n s).head →
      after n (r.prepend ts) = r ∧ ∀ m < n, result m (r.prepend ts) = result m s := by
  induction n generalizing s with
  | zero => exact ⟨[], rfl, fun r _ => ⟨rfl, fun m hm => absurd hm (Nat.not_lt_zero m)⟩⟩
  | succ n ih =>
      -- The first call stops at the token that the later ones start with.
      obtain ⟨ts, hs, hfirst⟩ := local_program s
      obtain ⟨us, hrest, hlater⟩ := ih (program s).2
      refine ⟨ts ++ us, ?_, fun r hr => ?_⟩
      · rw [prepend_append]
        exact hs.trans (congrArg (prepend ts) hrest)
      · have hhead : (r.prepend us).head = (program s).2.head := by
          rw [hrest]
          exact head_prepend_congr hr us
        have hprogram := hfirst _ hhead
        obtain ⟨hafter, hresults⟩ := hlater r hr
        rw [← prepend_append] at hprogram
        rw [after_succ, hprogram]
        refine ⟨hafter, fun m hm => ?_⟩
        cases m with
        | zero => rw [result_zero, result_zero, hprogram]
        | succ m =>
            rw [result_succ, result_succ, hprogram]
            exact hresults m (Nat.lt_of_succ_lt_succ hm)

theorem taken_eq_length (h : s = (after n s).prepend ts) : taken n s = ts.length := by
  rw [taken, length_eq_of_prepend h, Nat.add_sub_cancel_right]

theorem exists_taken (n : Nat) (s : TokenStream) :
    ∃ ts, s = (after n s).prepend ts ∧ taken n s = ts.length := by
  obtain ⟨ts, hs, -⟩ := after_local n s
  exact ⟨ts, hs, taken_eq_length hs⟩

theorem taken_add_length (n : Nat) (s : TokenStream) :
    taken n s + (after n s).pending.length = s.pending.length := by
  obtain ⟨ts, hs, htaken⟩ := exists_taken n s
  rw [htaken, length_eq_of_prepend hs]

theorem taken_add_length_succ (n : Nat) (s : TokenStream) :
    taken (n + 1) s + (program (after n s)).2.pending.length = s.pending.length :=
  after_succ' n s ▸ taken_add_length (n + 1) s

theorem taken_le_succ (n : Nat) (s : TokenStream) : taken n s ≤ taken (n + 1) s := by
  have hle := orderly_program.length_le (after n s)
  have hlength := taken_add_length n s
  have hlength' := taken_add_length_succ n s
  omega

theorem length_lt_of_program_eq_ok (h : (program s).1 = .ok e) :
    (program s).2.pending.length < s.pending.length := by
  obtain ⟨hexpr, -⟩ := program_eq_ok.1 (Prod.ext h rfl : program s = (.ok e, (program s).2))
  obtain ⟨ts, hs, hphrase⟩ := expr_sound hexpr
  obtain ⟨t, us, rfl, -⟩ := hphrase.front
  have hlength := length_eq_of_prepend hs
  rw [List.length_cons] at hlength
  omega

theorem program_eq_self (h : s.pending.length ≤ (program s).2.pending.length) : (program s).2 = s := by
  obtain ⟨ts, hs, -⟩ := local_program s
  have hlength := length_eq_of_prepend hs
  obtain rfl : ts = [] := List.length_eq_zero_iff.1 (by omega)
  exact hs.symm

theorem fails_for_good (h : s.pending.length ≤ (program s).2.pending.length) :
    ∃ d, ∀ n, result n s = .error d := by
  cases hresult : (program s).1 with
  | ok e => exact absurd (length_lt_of_program_eq_ok hresult) (Nat.not_lt_of_le h)
  | error d =>
      refine ⟨d, fun n => ?_⟩
      have hfixed : after n s = s := Function.iterate_fixed (program_eq_self h) n
      rw [result, hfixed, hresult]

/-! ## Expressions that follow one another -/

/-- A phrase is read to its end, and what follows it has to be the end of the input. -/
theorem program_phrase (h : ExprPhrase ts e)
    (hnumeral : ∀ t ∈ ts, t.kind = .number → Numeral.isNumeral t.text = true) (r : TokenStream) :
    program (r.prepend ts) =
      (if r.head.kind = .finish then .ok e else .error (.trailing r.head), r) := by
  have hfuel : ts.length ≤ (r.prepend ts).pending.length + 1 := by
    rw [pending_prepend, List.length_append]
    omega
  simp only [program, bind_apply, expr_complete h hnumeral hfuel, peek_apply]
  by_cases hfinish : r.head.kind = .finish
  · simp [hfinish, pure_apply]
  · simp [hfinish, fail_apply]

theorem program_finish (h : s.head.kind = .finish) : program s = (.error (.noExpression s.head), s) := by
  simp [program, expr, exprForm, bind_apply, peek_apply, h, fail_apply]

/-- The calls come to the expressions in turn. Each but the last finds the next one where the input should
end, the last one is returned, and behind it there is only the end of the input. -/
structure ReadsInTurn (s : TokenStream) (parts : List (List Token)) (es : List Expr) (finish : Token) :
    Prop where
  next : ∀ i, i + 1 < parts.length →
    ∃ t ts, parts[i + 1]? = some (t :: ts) ∧ result i s = .error (.trailing t)
  last : ∀ front e, es = front ++ [e] → result front.length s = .ok e
  behind : ∀ i, es.length ≤ i → result i s = .error (.noExpression finish)
  message : (ParseError.noExpression finish).message =
    "Unexpected end of input" ++ " at " ++ finish.position.render

theorem readsInTurn {parts : List (List Token)} {es : List Expr} (h : List.Forall₂ ExprPhrase parts es)
    (hnumeral : ∀ ts ∈ parts, ∀ t ∈ ts, t.kind = .number → Numeral.isNumeral t.text = true)
    (hend : r.head.kind = .finish) : ReadsInTurn (r.prepend parts.flatten) parts es r.head := by
  induction h with
  | nil =>
      refine ⟨fun i hi => absurd hi (Nat.not_lt_zero _), fun front e he => by simp at he, fun i _ => ?_,
        ParseError.message_noExpression_of_finish hend⟩
      have hprogram := program_finish hend
      have hfixed : after i r = r := Function.iterate_fixed (congrArg Prod.snd hprogram) i
      rw [List.flatten_nil, prepend_nil, result, hfixed, hprogram]
  | @cons ts e parts es hphrase h ih =>
      obtain ⟨hts, hparts⟩ := List.forall_mem_cons.1 hnumeral
      obtain ⟨hnext, hlast, hbehind, hmessage⟩ := ih hparts
      have hprogram := program_phrase hphrase hts (r.prepend parts.flatten)
      rw [← prepend_append, ← List.flatten_cons] at hprogram
      refine ⟨fun i hi => ?_, fun front d hd => ?_, fun i hi => ?_, hmessage⟩
      · cases i with
        | zero =>
            cases h with
            | nil => exact absurd hi (Nat.lt_irrefl 1)
            | cons hnextPhrase _ =>
                have hne := hnextPhrase.kind_ne_finish
                obtain ⟨t, us, rfl, -⟩ := hnextPhrase.front
                refine ⟨t, us, rfl, ?_⟩
                rw [result_zero, hprogram]
                exact if_neg (hne t List.mem_cons_self)
        | succ i =>
            rw [result_succ, hprogram]
            exact hnext i (Nat.lt_of_succ_lt_succ hi)
      · cases front with
        | nil =>
            obtain ⟨rfl, rfl⟩ := List.cons.inj hd
            cases h
            rw [List.length_nil, result_zero, hprogram]
            exact if_pos hend
        | cons d' front =>
            obtain ⟨rfl, rfl⟩ := List.cons.inj hd
            rw [List.length_cons, result_succ, hprogram]
            exact hlast front d rfl
      · cases i with
        | zero => cases hi
        | succ i =>
            rw [result_succ, hprogram]
            exact hbehind i (Nat.le_of_succ_le_succ hi)

/-- A parser goes on like a new one on the rest of its tokens. From a list with a token that ends the input,
every call gives what the first call of a new parser gives on the tokens from the index where the last call
stopped, and so do all later calls. The index never falls and never passes the first token that ends the
input, and tokens behind it change nothing. A call that takes no token fails, and so does every later one,
with the same error. Expressions that follow one another are come to in turn. -/
theorem program_resumes {tokens : List Token} (hfinish : ∃ t ∈ tokens, t.kind = .finish) :
    ∃ s, TokenStream.ofTokens? tokens = some s ∧
      (∀ n, ∃ r, TokenStream.ofTokens? (tokens.drop (taken n s)) = some r ∧
        ∀ m, result (n + m) s = result m r) ∧
      (∀ n, taken n s ≤ taken (n + 1) s ∧ taken n s ≤ tokens.findIdx (·.kind = .finish)) ∧
      (∀ n others, others.take (taken (n + 1) s + 1) = tokens.take (taken (n + 1) s + 1) →
        (∃ t ∈ others, t.kind = .finish) →
        ∃ s', TokenStream.ofTokens? others = some s' ∧ ∀ m ≤ n, result m s' = result m s) ∧
      (∀ n, taken (n + 1) s = taken n s → ∃ d, ∀ m, n ≤ m → result m s = .error d) ∧
      ∀ parts es finish more, tokens = parts.flatten ++ finish :: more → finish.kind = .finish →
        List.Forall₂ ExprPhrase parts es →
        (∀ ts ∈ parts, ∀ t ∈ ts, t.kind = .number → Numeral.isNumeral t.text = true) →
        ReadsInTurn s parts es finish := by
  obtain ⟨s, hs, -⟩ := TokenStream.exists_ofTokens? hfinish
  refine ⟨s, hs, fun n => ?_, fun n => ⟨taken_le_succ n s, ?_⟩, fun n others htake hothers => ?_,
    fun n hn => ?_, fun parts es finish more htokens hkind hphrases hnumeral => ?_⟩
  · obtain ⟨ts, hsplit, htaken⟩ := exists_taken n s
    refine ⟨after n s, ?_, fun m => result_add n m s⟩
    rw [htaken]
    exact TokenStream.ofTokens?_drop (hsplit ▸ hs)
  · rw [← TokenStream.length_pending_eq_findIdx hs]
    exact Nat.sub_le _ _
  · obtain ⟨ts, hsplit, hlocal⟩ := after_local (n + 1) s
    rw [taken_eq_length hsplit] at htake
    obtain ⟨r, hr, hhead⟩ := TokenStream.exists_ofTokens?_of_take_eq (hsplit ▸ hs) htake hothers
    exact ⟨_, hr, fun m hm => (hlocal r hhead).2 m (Nat.lt_succ_of_le hm)⟩
  · have hstays : (after n s).pending.length ≤ (program (after n s)).2.pending.length := by
      have hlength := taken_add_length n s
      have hlength' := taken_add_length_succ n s
      omega
    obtain ⟨d, hd⟩ := fails_for_good hstays
    refine ⟨d, fun m hm => ?_⟩
    obtain ⟨k, rfl⟩ := Nat.exists_eq_add_of_le hm
    rw [result_add]
    exact hd k
  · have hne := kind_ne_finish_of_phrases hphrases
    have hlist : TokenStream.ofTokens? tokens =
        some ((⟨[], finish, hkind⟩ : TokenStream).prepend parts.flatten) := by
      rw [htokens, TokenStream.ofTokens?_append hne, TokenStream.ofTokens?_finish hkind, Option.map_some]
    rw [hs] at hlist
    rw [Option.some.inj hlist]
    exact readsInTurn hphrases hnumeral hkind

/-- The tokens of `x`, those of `-(7)`, the end of the input, and a token behind it. -/
def twoExpressions : List Token :=
  [⟨.name, "x", ⟨1, 1⟩⟩, ⟨.minus, "-", ⟨1, 3⟩⟩, ⟨.openParen, "(", ⟨1, 4⟩⟩, ⟨.number, "7", ⟨1, 5⟩⟩,
    ⟨.closeParen, ")", ⟨1, 6⟩⟩, .endAt ⟨1, 7⟩, ⟨.kwThen, "then", ⟨1, 8⟩⟩]

theorem twoExpressions_resumed : ∃ s, TokenStream.ofTokens? twoExpressions = some s ∧
    result 0 s = .error (.trailing ⟨.minus, "-", ⟨1, 3⟩⟩) ∧
    result 1 s = .ok (.negate (.number "7")) ∧
    ∀ n, 2 ≤ n → result n s = .error (.noExpression (.endAt ⟨1, 7⟩)) := by
  have hfinish : ∃ t ∈ twoExpressions, t.kind = .finish := ⟨.endAt ⟨1, 7⟩, by decide, rfl⟩
  obtain ⟨s, hs, -, -, -, -, hphrases⟩ := program_resumes hfinish
  have hname : ExprPhrase [⟨.name, "x", ⟨1, 1⟩⟩] (.identifier "x") :=
    .name (x := ⟨.name, "x", ⟨1, 1⟩⟩) rfl
  have hnegate : ExprPhrase [⟨.minus, "-", ⟨1, 3⟩⟩, ⟨.openParen, "(", ⟨1, 4⟩⟩, ⟨.number, "7", ⟨1, 5⟩⟩,
      ⟨.closeParen, ")", ⟨1, 6⟩⟩] (.negate (.number "7")) :=
    .negate (o := ⟨.openParen, "(", ⟨1, 4⟩⟩) rfl rfl (.number (n := ⟨.number, "7", ⟨1, 5⟩⟩) rfl) rfl
  obtain ⟨hnext, hlast, hbehind, -⟩ :=
    hphrases _ _ _ _ rfl rfl (.cons hname (.cons hnegate .nil)) (by decide)
  obtain ⟨t, ts, ht, hfirst⟩ := hnext 0 (by decide)
  cases ht
  exact ⟨s, hs, hfirst, hlast [.identifier "x"] _ rfl, hbehind⟩

end Parser

end TypedLet
