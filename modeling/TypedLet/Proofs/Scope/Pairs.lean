import Mathlib.Data.List.Dedup
import TypedLet.Scope.History

/-!
# Scopes as lists of pairs

A scope answers as a list of names and items does, the newest first, in which the first pair with a name
decides. The list of a scope is fixed when the scope is made, and the lists of a history name the scopes
that items belong to by number. So no answer depends on what is made later, and a path through scopes can
be followed in the lists alone, also round the cycle of a recursive frame.
-/

namespace TypedLet

/-! ## Lists of pairs -/

theorem lookup_cons_ite {β : Type} (p : String × β) (ps : List (String × β)) (x : String) :
    (p :: ps).lookup x = if p.1 = x then some p.2 else ps.lookup x := by
  by_cases h : p.1 = x
  · subst h
    rw [if_pos rfl, List.lookup_cons, beq_self_eq_true]
  · rw [if_neg h, List.lookup_cons, beq_false_of_ne (Ne.symm h)]

theorem lookup_map_mk {β : Type} (f : String → β) (names : List String) (x : String) :
    (names.map fun name => (name, f name)).lookup x = if x ∈ names then some (f x) else none := by
  induction names with
  | nil => rfl
  | cons n names ih =>
      rw [List.map_cons, lookup_cons_ite, ih]
      by_cases h : n = x
      · subst h
        simp
      · simp [h, Ne.symm h]

theorem lookup_eq_none {β : Type} {ps : List (String × β)} {x : String} :
    ps.lookup x = none ↔ x ∉ ps.map Prod.fst := by
  rw [List.lookup_eq_none_iff, List.mem_map]
  grind

/-- What can be seen of an item: its label, and the number of the scope that it belongs to, if it belongs
to one. -/
abbrev Seen : Type := String × Option Nat

def Binding.seen (b : Binding String (String × Nat)) : Seen := (b.label, b.home?)

/-- Names and their items, the newest first. A name can be bound to nothing. -/
abbrev Pairs : Type := List (String × Option Seen)

namespace Pairs

/-- The first pair with the name decides. One that binds the name to nothing hides those behind it. -/
def find (ps : Pairs) (x : String) : Option Seen :=
  (ps.lookup x).join

/-- Looks a name up in the list of a number, and then the names of a path, each in the list of the scope
that the item found before it belongs to. -/
def follow (made : List Pairs) : Nat → String → List String → Except String (Option Seen)
  | number, x, [] => .ok (find (made.getD number []) x)
  | number, x, next :: path =>
    match find (made.getD number []) x with
    | some (_, some home) => follow made home next path
    | _ => .error next

theorem find_cons (n : String) (item : Option Seen) (ps : Pairs) (x : String) :
    find ((n, item) :: ps) x = if n = x then item else ps.find x := by
  rw [find, lookup_cons_ite]
  by_cases h : n = x
  · rw [if_pos h, if_pos h, Option.join_some]
  · rw [if_neg h, if_neg h, find]

end Pairs

namespace Scope.History

/-- The item that the last entry of the name gives. -/
def lastItem (entries : List (String × Option String)) (name : String) : Option String :=
  (entries.reverse.lookup name).join

/-- The pairs of the scope that a making adds to those made before. -/
def Making.pairs (made : List Pairs) : Making → Pairs
  | .empty => []
  | .extend base name label => (name, label.map (·, none)) :: made.getD base []
  | .record entries =>
    (entries.map Prod.fst).dedup.map fun name => (name, (lastItem entries name).map (·, none))
  | .extendRec base name label => (name, label.map (·, some made.length)) :: made.getD base []

/-- The pairs of all scopes of a history, each list fixed when its scope is made. -/
def pairs (makings : List Making) : List Pairs :=
  makings.foldl (fun made making => made ++ [making.pairs made]) [[]]

def makeAll (h : History) (makings : List Making) : History :=
  makings.foldl make h

end Scope.History

/-! ## Look-up behind each way to make a scope -/

namespace Scope

variable {α ρ : Type}

theorem lookup_extend? (s : Scope α ρ) (name : String) (item : Option α) (x : String) :
    (s.extend? name item).lookup x = if name = x then item.map .plain else s.lookup x := by
  cases item <;> rfl

theorem follow_congr {s t : Scope α ρ} {x : String} (h : s.lookup x = t.lookup x) (path : List String) :
    s.follow x path = t.follow x path := by
  cases path <;> simp only [follow, h]

/-- One turn round the cycle of a recursive frame leads back to where it started. -/
theorem follow_extendRec_replicate (s : Scope α ρ) (name : String) (item : ρ) (turns : Nat)
    (path : List String) :
    (s.extendRec name item).follow name (List.replicate turns name ++ path) =
      (s.extendRec name item).follow name path := by
  induction turns with
  | zero => rfl
  | succ turns ih =>
      rw [List.replicate_succ, List.cons_append, follow, lookup_extendRec_self]
      exact ih

/-! ### Records -/

theorem lookup_foldl_extend? (ps : List (String × Option α)) (x : String) :
    ∀ s : Scope α ρ, (ps.foldl (fun s p => s.extend? p.1 p.2) s).lookup x =
      (ps.reverse.lookup x).elim (s.lookup x) (Option.map .plain) := by
  induction ps with
  | nil => exact fun _ => rfl
  | cons p ps ih =>
      intro s
      rw [List.foldl_cons, ih, lookup_extend?, List.reverse_cons, List.lookup_append]
      rw [lookup_cons_ite]
      cases ps.reverse.lookup x with
      | some item => rfl
      | none => by_cases h : p.1 = x <;> simp [h]

theorem mem_fst_lastOfEach {entries : List (String × Option α)} {x : String} :
    x ∈ (lastOfEach entries).map Prod.fst ↔ x ∈ entries.map Prod.fst := by
  induction entries with
  | nil => rfl
  | cons p ps ih =>
      rw [lastOfEach]
      split
      · rename_i hlater
        obtain ⟨q, hq, hname⟩ := List.any_eq_true.1 hlater
        rw [ih, List.map_cons, List.mem_cons]
        refine ⟨.inr, fun h => h.elim (fun hx => ?_) id⟩
        exact List.mem_map.2 ⟨q, hq, (of_decide_eq_true hname).trans hx.symm⟩
      · rw [List.map_cons, List.map_cons, List.mem_cons, List.mem_cons, ih]

theorem nodup_fst_lastOfEach (entries : List (String × Option α)) :
    ((lastOfEach entries).map Prod.fst).Nodup := by
  induction entries with
  | nil => exact .nil
  | cons p ps ih =>
      rw [lastOfEach]
      split
      · exact ih
      · rename_i hlast
        rw [List.map_cons, List.nodup_cons, mem_fst_lastOfEach]
        refine ⟨fun hmem => hlast ?_, ih⟩
        obtain ⟨q, hq, hname⟩ := List.mem_map.1 hmem
        exact List.any_eq_true.2 ⟨q, hq, decide_eq_true hname⟩

theorem lookup_reverse_lastOfEach (entries : List (String × Option α)) (x : String) :
    (lastOfEach entries).reverse.lookup x = entries.reverse.lookup x := by
  induction entries with
  | nil => rfl
  | cons p ps ih =>
      rw [lastOfEach]
      split
      · rename_i hlater
        obtain ⟨q, hq, hname⟩ := List.any_eq_true.1 hlater
        rw [ih, List.reverse_cons, List.lookup_append]
        cases hlookup : ps.reverse.lookup x with
        | some item => rfl
        | none =>
            have hne : p.1 ≠ x := by
              rintro rfl
              refine lookup_eq_none.1 hlookup ?_
              rw [List.map_reverse, List.mem_reverse]
              exact List.mem_map.2 ⟨q, hq, of_decide_eq_true hname⟩
            rw [lookup_cons_ite, if_neg hne]
            rfl
      · rw [List.reverse_cons, List.reverse_cons, List.lookup_append, List.lookup_append, ih]

theorem lookup_of_mem_lastOfEach {entries : List (String × Option α)} {p : String × Option α}
    (h : p ∈ lastOfEach entries) : entries.reverse.lookup p.1 = some p.2 := by
  induction entries with
  | nil => cases h
  | cons q ps ih =>
      rw [List.reverse_cons, List.lookup_append]
      rw [lastOfEach] at h
      split at h
      · rw [ih h, Option.some_or]
      · rename_i hlast
        rcases List.mem_cons.1 h with rfl | hmem
        · have hnone : ps.reverse.lookup p.1 = none := by
            rw [lookup_eq_none, List.map_reverse, List.mem_reverse, List.mem_map]
            rintro ⟨q, hq, hname⟩
            exact hlast (List.any_eq_true.2 ⟨q, hq, decide_eq_true hname⟩)
          rw [hnone, Option.none_or, lookup_cons_ite, if_pos rfl]
        · rw [ih hmem, Option.some_or]

theorem lookup_ofRecord (entries : List (String × Option α)) (x : String) :
    (ofRecord entries : Scope α ρ).lookup x = ((entries.reverse.lookup x).join).map .plain := by
  rw [ofRecord, lookup_foldl_extend?, lookup_reverse_lastOfEach]
  cases entries.reverse.lookup x <;> rfl

end Scope

/-! ## Each list describes its scope -/

theorem getD_concat_length {α : Type} (xs : List α) (x d : α) :
    (xs ++ [x]).getD xs.length d = x := by
  simp

theorem getD_concat_of_ne {α : Type} (xs : List α) (x d : α) {k : Nat} (hk : k ≠ xs.length) :
    (xs ++ [x]).getD k d = xs.getD k d := by
  rw [List.getD_eq_getElem?_getD, List.getD_eq_getElem?_getD]
  rcases Nat.lt_or_gt_of_ne hk with hlt | hgt
  · rw [List.getElem?_append_left hlt]
  · have hlength : (xs ++ [x]).length ≤ k := by
      rw [List.length_append]
      exact hgt
    rw [List.getElem?_eq_none hlength, List.getElem?_eq_none (Nat.le_of_lt hgt)]

namespace Scope.History

open Pairs

variable {h : History} {made : List Pairs}

theorem next_make (h : History) (making : Making) : (h.make making).next = h.next + 1 := by
  simp [make, next]

theorem scope_make_next (h : History) (making : Making) :
    (h.make making).scope h.next = h.built making :=
  getD_concat_length h.scopes _ _

theorem scope_make_of_ne (h : History) (making : Making) {k : Nat} (hk : k ≠ h.next) :
    (h.make making).scope k = h.scope k :=
  getD_concat_of_ne h.scopes _ _ hk

theorem scope_makeAll (makings : List Making) {h : History} {k : Nat} (hk : k < h.next) :
    (h.makeAll makings).scope k = h.scope k := by
  induction makings generalizing h with
  | nil => rfl
  | cons making makings ih =>
      have hnext : k < (h.make making).next := by
        rw [next_make]
        exact Nat.lt_succ_of_lt hk
      exact (ih hnext).trans (h.scope_make_of_ne making (Nat.ne_of_lt hk))

/-- Each list finds what its scope looks up, and the scope that a recursive item belongs to has the number
which the item carries. -/
structure Describes (made : List Pairs) (h : History) : Prop where
  length : made.length = h.next
  find : ∀ k x, ((h.scope k).lookup x).map Binding.seen = Pairs.find (made.getD k []) x
  home : ∀ {k x item s}, (h.scope k).lookup x = some (.recursive item s) →
    item.2 < h.next ∧ s = h.scope item.2

theorem describes_start : Describes [[]] start where
  length := rfl
  find k x := by rcases k with _ | _ <;> rfl
  home {k x item s} hlookup := by rcases k with _ | _ <;> cases hlookup

theorem Describes.find_built (hd : Describes made h) (making : Making) (x : String) :
    ((h.built making).lookup x).map Binding.seen = Pairs.find (making.pairs made) x := by
  rcases making with _ | ⟨base, name, label⟩ | entries | ⟨base, name, label⟩
  · rfl
  · rw [built, lookup_extend?, Making.pairs, find_cons, ← hd.find]
    by_cases hname : name = x
    · rw [if_pos hname, if_pos hname]
      cases label <;> rfl
    · rw [if_neg hname, if_neg hname]
  · rw [built, lookup_ofRecord, Making.pairs, Pairs.find, lookup_map_mk, lastItem]
    cases hlookup : entries.reverse.lookup x with
    | none => split <;> rfl
    | some label =>
        have hmem : x ∈ (entries.map Prod.fst).dedup := by
          by_contra hmem
          rw [List.mem_dedup, ← List.mem_reverse, ← List.map_reverse, ← lookup_eq_none, hlookup] at hmem
          cases hmem
        rw [if_pos hmem]
        cases label <;> rfl
  · rw [Making.pairs, find_cons, ← hd.find, hd.length]
    by_cases hname : name = x
    · subst hname
      cases label <;> simp [built, Binding.seen, Binding.label, Binding.home?]
    · rw [if_neg hname]
      cases label with
      | none => rw [built, lookup_reserve_of_ne _ hname]
      | some label => rw [built, lookup_extendRec_of_ne _ _ hname]

theorem Describes.home_built (hd : Describes made h) {making : Making} {x : String} {item : String × Nat}
    {s : LabelScope} (hlookup : (h.built making).lookup x = some (.recursive item s)) :
    (item.2 < h.next ∧ s = h.scope item.2) ∨ (item.2 = h.next ∧ s = h.built making) := by
  rcases making with _ | ⟨base, name, label⟩ | entries | ⟨base, name, _ | label⟩
  · cases hlookup
  · rw [built, lookup_extend?] at hlookup
    split at hlookup
    · cases label <;> cases hlookup
    · exact .inl (hd.home hlookup)
  · rw [built, lookup_ofRecord] at hlookup
    rcases hjoin : (entries.reverse.lookup x).join with _ | label <;> rw [hjoin] at hlookup <;> cases hlookup
  · by_cases hname : name = x
    · subst hname
      rw [built, lookup_reserve_self] at hlookup
      cases hlookup
    · rw [built, lookup_reserve_of_ne _ hname] at hlookup
      exact .inl (hd.home hlookup)
  · by_cases hname : name = x
    · subst hname
      rw [built, lookup_extendRec_self] at hlookup
      cases hlookup
      exact .inr ⟨rfl, rfl⟩
    · rw [built, lookup_extendRec_of_ne _ _ hname] at hlookup
      exact .inl (hd.home hlookup)

theorem Describes.make (hd : Describes made h) (making : Making) :
    Describes (made ++ [making.pairs made]) (h.make making) where
  length := by rw [List.length_append, next_make, hd.length, List.length_singleton]
  find k x := by
    by_cases hk : k = h.next
    · subst hk
      rw [scope_make_next, ← hd.length, getD_concat_length]
      exact hd.find_built making x
    · rw [scope_make_of_ne h making hk, getD_concat_of_ne _ _ _ (hd.length ▸ hk)]
      exact hd.find k x
  home {k x item s} hlookup := by
    -- The scope that the item belongs to keeps its number, unless it is the one that is made.
    have hold : item.2 < h.next → item.2 < (h.make making).next ∧
        (h.make making).scope item.2 = h.scope item.2 := fun hlt =>
      ⟨next_make h making ▸ Nat.lt_succ_of_lt hlt, h.scope_make_of_ne making (Nat.ne_of_lt hlt)⟩
    by_cases hk : k = h.next
    · subst hk
      rw [scope_make_next] at hlookup
      rcases hd.home_built hlookup with ⟨hlt, hs⟩ | ⟨hitem, hs⟩
      · exact ⟨(hold hlt).1, hs.trans (hold hlt).2.symm⟩
      · rw [hitem, next_make, scope_make_next]
        exact ⟨Nat.lt_succ_self _, hs⟩
    · rw [scope_make_of_ne h making hk] at hlookup
      obtain ⟨hlt, hs⟩ := hd.home hlookup
      exact ⟨(hold hlt).1, hs.trans (hold hlt).2.symm⟩

theorem describes_makeAll (makings : List Making) :
    Describes (pairs makings) (start.makeAll makings) := by
  have hall : ∀ {made h}, Describes made h →
      Describes (makings.foldl (fun made making => made ++ [making.pairs made]) made)
        (h.makeAll makings) := by
    induction makings with
    | nil => exact id
    | cons making makings ih => exact fun hd => ih (hd.make making)
  exact hall describes_start

theorem Describes.follow (hd : Describes made h) (k : Nat) (x : String) (path : List String) :
    ((h.scope k).follow x path).map (Option.map Binding.seen) = Pairs.follow made k x path := by
  induction path generalizing k x with
  | nil =>
      rw [Pairs.follow, ← hd.find]
      rfl
  | cons next path ih =>
      rw [Pairs.follow, ← hd.find, Scope.follow]
      cases hlookup : (h.scope k).lookup x with
      | none => rfl
      | some binding =>
          cases binding with
          | plain label => rfl
          | recursive item s =>
              -- The path goes on in a scope of the history, so the induction hypothesis is about it.
              obtain ⟨-, rfl⟩ := hd.home hlookup
              exact ih item.2 next

theorem pairs_prefix_append (makings later : List Making) : pairs makings <+: pairs (makings ++ later) := by
  rw [pairs, pairs, List.foldl_append]
  generalize makings.foldl (fun made making => made ++ [making.pairs made]) [[]] = made
  induction later generalizing made with
  | nil => exact List.prefix_rfl
  | cons making later ih => exact (List.prefix_append _ _).trans (ih _)

/-! ## Every history -/

/-- The scopes of a history answer as the lists do, one list for each scope. -/
structure Answers (made : List Pairs) (h : History) : Prop where
  length : made.length = h.next
  follow : ∀ k x path,
    ((h.scope k).follow x path).map (Option.map Binding.seen) = Pairs.follow made k x path
  has : ∀ k x, (h.scope k).has x = (Pairs.find (made.getD k []) x).isSome
  /-- The scope of a record is made by extending the empty one by each name with its last item. -/
  record : ∀ entries : List (String × Option String), ∃ ps : List (String × Option String),
    (ps.map Prod.fst).Nodup ∧ (∀ x, x ∈ ps.map Prod.fst ↔ x ∈ entries.map Prod.fst) ∧
    (∀ p ∈ ps, entries.reverse.lookup p.1 = some p.2) ∧
    h.built (.record entries) = ps.foldl (fun s p => s.extend? p.1 p.2) .empty
  /-- While a recursive item is made, its name is not found and hides the outer one. -/
  initialising : ∀ base name, (h.initialising base name).lookup name = none ∧
    ∀ x, name ≠ x → ∀ path, (h.initialising base name).follow x path = (h.scope base).follow x path
  /-- A recursive item belongs to the scope that it made, and turns round that cycle lead nowhere else. -/
  recursive : ∀ base name label, ∃ s, h.built (.extendRec base name (some label)) = s ∧
    s.lookup name = some (.recursive (label, h.next) s) ∧
    (∀ x, name ≠ x → ∀ path, s.follow x path = (h.scope base).follow x path) ∧
    ∀ turns path, s.follow name (List.replicate turns name ++ path) = s.follow name path

theorem Describes.answers (hd : Describes made h) : Answers made h where
  length := hd.length
  follow := hd.follow
  has k x := by rw [Scope.has, ← hd.find, Option.isSome_map]
  record entries := ⟨lastOfEach entries, nodup_fst_lastOfEach entries, fun _ => mem_fst_lastOfEach,
    fun _ => lookup_of_mem_lastOfEach, rfl⟩
  initialising base name :=
    ⟨lookup_reserve_self _ _, fun _ hname => follow_congr (lookup_reserve_of_ne _ hname)⟩
  recursive base name label := ⟨_, rfl, lookup_extendRec_self _ _ _,
    fun _ hname => follow_congr (lookup_extendRec_of_ne _ _ hname), follow_extendRec_replicate _ _ _⟩

/-- Whatever scopes are made, in whatever order and on top of which ones, each answers as its list of
pairs does, and what is made later changes neither the scope nor the list. -/
theorem answers_makeAll (makings later : List Making) :
    Answers (pairs makings) (start.makeAll makings) ∧
    pairs makings <+: pairs (makings ++ later) ∧
    ∀ k < (start.makeAll makings).next,
      (start.makeAll (makings ++ later)).scope k = (start.makeAll makings).scope k := by
  refine ⟨(describes_makeAll makings).answers, pairs_prefix_append makings later, fun k hk => ?_⟩
  rw [makeAll, List.foldl_append]
  exact scope_makeAll later hk

/-- A recursive frame on top of one that has a plain item of its name, and then two scopes side by side. -/
def branching : List Making :=
  [.extend 0 "f" (some "outer"), .extendRec 1 "f" (some "loop"), .extend 2 "g" none,
    .record [("g", some "first"), ("g", some "last")]]

/-- The path goes round the cycle twice, and the frame of `g` that has no item hides nothing else. -/
theorem branching_answers :
    Pairs.follow (pairs branching) 3 "f" ["f", "f"] = .ok (some ("loop", some 2)) ∧
    (((start.makeAll branching).scope 3).follow "f" ["f", "f"]).map (Option.map Binding.seen) =
      .ok (some ("loop", some 2)) ∧
    ((start.makeAll branching).scope 3).has "g" = false ∧
    ((start.makeAll branching).scope 4).has "g" = true ∧
    (start.makeAll (branching ++ [.extend 1 "f" none])).scope 2 = (start.makeAll branching).scope 2 := by
  have hfollow : Pairs.follow (pairs branching) 3 "f" ["f", "f"] = .ok (some ("loop", some 2)) := by rfl
  obtain ⟨hanswers, -, hlater⟩ := answers_makeAll branching [.extend 1 "f" none]
  refine ⟨hfollow, (hanswers.follow 3 "f" ["f", "f"]).trans hfollow, ?_, ?_, hlater 2 (by decide)⟩
  · rw [hanswers.has]
    rfl
  · rw [hanswers.has]
    rfl

end Scope.History

end TypedLet
