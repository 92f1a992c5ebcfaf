import TypedLet.Proofs.Scope.Pairs

/-!
# Frames on a heap

Scopes share the frames that they have in common, so they can be kept as cells on a heap. A cell holds a
frame and the address of the scope that it is built on, and a scope is the address of its newest cell. A
recursive item belongs to the scope that its own frame makes: the cell is there first, without an item, and
is filled in place once the item is made. Here each address is shown to find what the scope of its number
looks up (`Represents`), also while the item is made. That nothing which is made later changes the answers
of an address is a property of the cells that are added and filled (`Extends`).
-/

namespace TypedLet.Scope

/-- An item on a heap: its label, and the address of the scope that it belongs to, if it belongs to one. -/
abbrev Item : Type := String × Option Nat

/-- The item of a binding, given the addresses of the scopes by their numbers. -/
def itemAt (address : Nat → Nat) (b : Binding String (String × Nat)) : Item :=
  (b.label, b.home?.map address)

inductive Cell where
  | empty
  | frame (name : String) (item : Option Item) (outer : Nat)

/-- The cell with another item. -/
def Cell.fill (item : Option Item) : Cell → Cell
  | empty => empty
  | frame name _ outer => frame name item outer

/-- Cells, the newest first. The address of a cell is the number of cells behind it. -/
abbrev Heap : Type := List Cell

namespace Heap

/-- Follows the cells from an address outwards, up to the first one with the name. -/
def find : Heap → Nat → String → Option Item
  | [], _, _ => none
  | cell :: older, address, x =>
    if address = older.length then
      match cell with
      | .empty => none
      | .frame name item outer => if name = x then item else find older outer x
    else find older address x

/-- Writes an item into the cell at an address. -/
def fill : Heap → Nat → Option Item → Heap
  | [], _, _ => []
  | cell :: older, address, item =>
    if address = older.length then cell.fill item :: older else cell :: fill older address item

/-- Looks a name up from an address, and then the names of a path, each from the address of the scope that
the item found before it belongs to. -/
def follow (heap : Heap) : Nat → String → List String → Except String (Option Item)
  | address, x, [] => .ok (heap.find address x)
  | address, x, next :: path =>
    match heap.find address x with
    | some (_, some home) => heap.follow home next path
    | _ => .error next

variable {heap : Heap} {x : String}

theorem find_cons_of_ne {a : Nat} (cell : Cell) (ha : a ≠ heap.length) :
    find (cell :: heap) a x = find heap a x :=
  if_neg ha

theorem find_frame (name : String) (item : Option Item) (outer : Nat) :
    find (.frame name item outer :: heap) heap.length x =
      if name = x then item else find heap outer x :=
  if_pos rfl

theorem fill_newest (cell : Cell) (item : Option Item) :
    fill (cell :: heap) heap.length item = cell.fill item :: heap :=
  if_pos rfl

theorem length_fill (a : Nat) (item : Option Item) : (fill heap a item).length = heap.length := by
  induction heap with
  | nil => rfl
  | cons cell older ih =>
      rw [fill]
      split
      · rfl
      · rw [List.length_cons, List.length_cons, ih]

/-- A write changes nothing that is found from an older address. -/
theorem find_fill_of_lt {a b : Nat} (hab : a < b) (hb : b < heap.length) (item : Option Item) :
    find (fill heap b item) a x = find heap a x := by
  induction heap with
  | nil => rfl
  | cons cell older ih =>
      rw [fill]
      by_cases hnewest : b = older.length
      · rw [if_pos hnewest, find_cons_of_ne _ (by omega), find_cons_of_ne _ (by omega)]
      · rw [List.length_cons] at hb
        have hlength : (fill older b item).length = older.length := length_fill b item
        rw [if_neg hnewest, find_cons_of_ne _ (by omega), find_cons_of_ne _ (by omega)]
        exact ih (by omega)

/-! ## What is kept of a heap -/

/-- The later heap has all addresses of the heap, and the same is found from them. -/
structure Extends (heap later : Heap) : Prop where
  length_le : heap.length ≤ later.length
  find_eq : ∀ a < heap.length, ∀ x, later.find a x = heap.find a x

theorem Extends.refl (heap : Heap) : Extends heap heap := ⟨Nat.le_refl _, fun _ _ _ => rfl⟩

theorem Extends.trans {later last : Heap} (h : Extends heap later) (h' : Extends later last) :
    Extends heap last where
  length_le := Nat.le_trans h.length_le h'.length_le
  find_eq a ha x :=
    (h'.find_eq a (Nat.lt_of_lt_of_le ha h.length_le) x).trans (h.find_eq a ha x)

theorem Extends.cons (heap : Heap) (cell : Cell) : Extends heap (cell :: heap) where
  length_le := Nat.le_succ _
  find_eq _ ha _ := find_cons_of_ne cell (Nat.ne_of_lt ha)

/-- A write into a cell that is newer than the heap keeps it. -/
theorem Extends.fill {later : Heap} (h : Extends heap later) {b : Nat} (hb : heap.length ≤ b)
    (hlater : b < later.length) (item : Option Item) : Extends heap (later.fill b item) where
  length_le := (length_fill b item).symm ▸ h.length_le
  find_eq a ha x :=
    (find_fill_of_lt (Nat.lt_of_lt_of_le ha hb) hlater item).trans (h.find_eq a ha x)

end Heap

/-! ## Histories on a heap -/

open History (Making)

/-- A heap, and the addresses of the scopes by their numbers. -/
structure Store where
  heap : Heap
  addresses : List Nat

namespace Store

def start : Store := ⟨[.empty], [0]⟩

def address (s : Store) (number : Nat) : Nat := s.addresses.getD number 0

/-- The heap while the item of a recursive frame is made. -/
def reserve (s : Store) (base : Nat) (name : String) : Heap :=
  .frame name none (s.address base) :: s.heap

/-- Adds a frame to the scope of the newest cell. -/
def addFrame (heap : Heap) (p : String × Option String) : Heap :=
  .frame p.1 (p.2.map (·, none)) (heap.length - 1) :: heap

/-- The heap behind a making. The scope that is made is that of the newest cell. -/
def build (s : Store) : Making → Heap
  | .empty => .empty :: s.heap
  | .extend base name label => .frame name (label.map (·, none)) (s.address base) :: s.heap
  | .record entries => (lastOfEach entries).foldl addFrame (.empty :: s.heap)
  | .extendRec base name label =>
    (s.reserve base name).fill s.heap.length (label.map (·, some s.heap.length))

def make (s : Store) (making : Making) : Store :=
  ⟨s.build making, s.addresses ++ [(s.build making).length - 1]⟩

def makeAll (s : Store) (makings : List Making) : Store :=
  makings.foldl make s

theorem extends_foldl_addFrame (ps : List (String × Option String)) (heap : Heap) :
    Heap.Extends heap (ps.foldl addFrame heap) := by
  induction ps generalizing heap with
  | nil => exact .refl heap
  | cons p ps ih => exact (Heap.Extends.cons heap _).trans (ih _)

theorem extends_build (s : Store) (making : Making) : Heap.Extends s.heap (s.build making) := by
  cases making with
  | empty | extend => exact .cons s.heap _
  | record entries => exact (Heap.Extends.cons s.heap _).trans (extends_foldl_addFrame _ _)
  | extendRec base name label =>
      exact (Heap.Extends.cons s.heap _).fill (Nat.le_refl _) (Nat.lt_succ_self _) _

theorem extends_makeAll (s : Store) (makings : List Making) :
    Heap.Extends s.heap (s.makeAll makings).heap := by
  induction makings generalizing s with
  | nil => exact .refl s.heap
  | cons making makings ih => exact (s.extends_build making).trans (ih (s.make making))

theorem length_build_pos (s : Store) (making : Making) : 0 < (s.build making).length := by
  cases making with
  | empty | extend => exact Nat.succ_pos _
  | record entries =>
      exact Nat.lt_of_lt_of_le (Nat.succ_pos _)
        (extends_foldl_addFrame (lastOfEach entries) (.empty :: s.heap)).length_le
  | extendRec base name label =>
      rw [build, Heap.length_fill]
      exact Nat.succ_pos _

theorem address_make_of_ne (s : Store) (making : Making) {k : Nat} (hk : k ≠ s.addresses.length) :
    (s.make making).address k = s.address k :=
  getD_concat_of_ne s.addresses _ _ hk

theorem address_make_self (s : Store) (making : Making) :
    (s.make making).address s.addresses.length = (s.build making).length - 1 :=
  getD_concat_length s.addresses _ _

end Store

/-! ## Each address finds what its scope looks up -/

open Store (start)

variable {s : Store} {h : History} {made : List Pairs}

/-- The store keeps the scopes of the history, each under an address on the heap. -/
structure Represents (s : Store) (h : History) : Prop where
  length : s.addresses.length = h.next
  address_lt : ∀ k, s.address k < s.heap.length
  find : ∀ k x, s.heap.find (s.address k) x = ((h.scope k).lookup x).map (itemAt s.address)

theorem represents_start : Represents start .start where
  length := rfl
  address_lt k := by rcases k with _ | _ <;> exact Nat.one_pos
  find k x := by rcases k with _ | _ <;> rfl

/-- Addresses that agree on the scopes made so far give the same items. -/
theorem map_itemAt_congr (hd : History.Describes made h) {address address' : Nat → Nat}
    (hsame : ∀ k < h.next, address' k = address k) (k : Nat) (x : String) :
    ((h.scope k).lookup x).map (itemAt address') = ((h.scope k).lookup x).map (itemAt address) := by
  cases hlookup : (h.scope k).lookup x with
  | none => rfl
  | some b =>
      cases b with
      | plain label => rfl
      | recursive item home =>
          simp only [Option.map_some, itemAt, Binding.home?, hsame _ (hd.home hlookup).1]

/-- A cell on top of a heap answers as its frame does on top of a scope that the heap answers for. -/
theorem find_frame_extend? {address : Nat → Nat} {heap : Heap} {outer : Nat} {t : LabelScope} {x : String}
    (hfind : heap.find outer x = (t.lookup x).map (itemAt address)) (name : String)
    (label : Option String) :
    Heap.find (.frame name (label.map (·, none)) outer :: heap) heap.length x =
      ((t.extend? name label).lookup x).map (itemAt address) := by
  rw [Heap.find_frame, lookup_extend?, hfind]
  by_cases hname : name = x
  · rw [if_pos hname, if_pos hname, Option.map_map]
    rfl
  · rw [if_neg hname, if_neg hname]

/-- The frames of a record are added to the heap as they are to the scope. -/
theorem find_foldl_addFrame (address : Nat → Nat) (x : String) (ps : List (String × Option String)) :
    ∀ {heap : Heap} {t : LabelScope},
      heap.find (heap.length - 1) x = (t.lookup x).map (itemAt address) →
      (ps.foldl Store.addFrame heap).find ((ps.foldl Store.addFrame heap).length - 1) x =
        ((ps.foldl (fun t p => t.extend? p.1 p.2) t).lookup x).map (itemAt address) := by
  induction ps with
  | nil => exact id
  | cons p ps ih =>
      intro heap t hfind
      exact ih (find_frame_extend? hfind p.1 p.2)

namespace Represents

/-- A scope that is made later takes none of the addresses. -/
theorem address_make_of_lt (hr : Represents s h) (making : Making) {k : Nat} (hk : k < h.next) :
    (s.make making).address k = s.address k :=
  s.address_make_of_ne making (hr.length ▸ Nat.ne_of_lt hk)

/-- While a recursive item is made, its cell answers as the scope with the reserved frame. -/
theorem find_reserve (hr : Represents s h) (base : Nat) (name x : String) :
    (s.reserve base name).find s.heap.length x =
      ((h.initialising base name).lookup x).map (itemAt s.address) := by
  rw [Store.reserve, Heap.find_frame, History.initialising, hr.find]
  by_cases hname : name = x
  · subst hname
    rw [if_pos rfl, lookup_reserve_self, Option.map_none]
  · rw [if_neg hname, lookup_reserve_of_ne _ hname]

theorem find_build (hr : Represents s h) (hd : History.Describes made h) (making : Making) (x : String) :
    (s.build making).find ((s.build making).length - 1) x =
      ((h.built making).lookup x).map (itemAt (s.make making).address) := by
  have hbase : ∀ base, s.heap.find (s.address base) x =
      ((h.scope base).lookup x).map (itemAt (s.make making).address) := fun base => by
    rw [hr.find, map_itemAt_congr hd fun _ hk => hr.address_make_of_lt making hk]
  cases making with
  | empty => exact if_pos rfl
  | extend base name label => exact find_frame_extend? (hbase base) name label
  | record entries => exact find_foldl_addFrame _ x _ (if_pos rfl)
  | extendRec base name label =>
      have hnew : (s.make (.extendRec base name label)).address h.next = s.heap.length := by
        rw [← hr.length, Store.address_make_self, Store.build, Heap.length_fill]
        rfl
      rw [Store.build, Heap.length_fill, Store.reserve, List.length_cons, Nat.add_sub_cancel,
        Heap.fill_newest, Cell.fill, Heap.find_frame, hbase]
      by_cases hname : name = x
      · subst hname
        cases label with
        | none => rw [if_pos rfl, History.built, lookup_reserve_self, Option.map_none, Option.map_none]
        | some label =>
            rw [if_pos rfl, History.built, lookup_extendRec_self, Option.map_some, Option.map_some,
              itemAt, Binding.home?, Option.map_some, hnew, Binding.label]
      · cases label with
        | none => rw [if_neg hname, History.built, lookup_reserve_of_ne _ hname]
        | some label => rw [if_neg hname, History.built, lookup_extendRec_of_ne _ _ hname]

theorem make (hr : Represents s h) (hd : History.Describes made h) (making : Making) :
    Represents (s.make making) (h.make making) where
  length := by rw [Store.make, List.length_append, hr.length, History.next_make, List.length_singleton]
  address_lt k := by
    by_cases hk : k = s.addresses.length
    · rw [hk, Store.address_make_self]
      exact Nat.sub_lt (s.length_build_pos making) Nat.one_pos
    · rw [s.address_make_of_ne making hk]
      exact Nat.lt_of_lt_of_le (hr.address_lt k) (s.extends_build making).length_le
  find k x := by
    by_cases hk : k = h.next
    · rw [hk, History.scope_make_next, ← hr.find_build hd, ← hr.length, Store.address_make_self]
      rfl
    · rw [History.scope_make_of_ne h making hk,
        map_itemAt_congr hd fun _ hlt => hr.address_make_of_lt making hlt,
        s.address_make_of_ne making (hr.length.symm ▸ hk), ← hr.find]
      exact (s.extends_build making).find_eq _ (hr.address_lt k) x

theorem follow (hr : Represents s h) (hd : History.Describes made h) (k : Nat) (x : String)
    (path : List String) :
    s.heap.follow (s.address k) x path =
      ((h.scope k).follow x path).map (Option.map (itemAt s.address)) := by
  induction path generalizing k x with
  | nil =>
      rw [Heap.follow, hr.find]
      rfl
  | cons next path ih =>
      rw [Heap.follow, hr.find, Scope.follow]
      cases hlookup : (h.scope k).lookup x with
      | none => rfl
      | some b =>
          cases b with
          | plain label => rfl
          | recursive item home =>
              obtain ⟨-, rfl⟩ := hd.home hlookup
              exact ih item.2 next

/-- What is found along a path stays the same on every later heap. -/
theorem follow_of_extends (hr : Represents s h) {heap : Heap} (he : Heap.Extends s.heap heap) (k : Nat)
    (x : String) (path : List String) :
    heap.follow (s.address k) x path = s.heap.follow (s.address k) x path := by
  induction path generalizing k x with
  | nil => rw [Heap.follow, Heap.follow, he.find_eq _ (hr.address_lt k)]
  | cons next path ih =>
      rw [Heap.follow, Heap.follow, he.find_eq _ (hr.address_lt k), hr.find]
      cases (h.scope k).lookup x with
      | none => rfl
      | some b =>
          cases b with
          | plain label => rfl
          -- The home of the item is a scope of the store too.
          | recursive item home => exact ih item.2 next

end Represents

theorem represents_makeAll (makings : List Making) :
    Represents (start.makeAll makings) (History.start.makeAll makings) := by
  have hall : ∀ {made s h}, Represents s h → History.Describes made h →
      Represents (s.makeAll makings) (h.makeAll makings) := by
    induction makings with
    | nil => exact fun hr _ => hr
    | cons making makings ih => exact fun hr hd => ih (hr.make hd making) (hd.make making)
  exact hall represents_start History.describes_start

/-- Scopes on a heap answer as the scopes of the history do, along every path, and while a recursive item is
made. Whatever cells are added and filled later, an address finds along every path what it found before. -/
theorem heap_follow_makeAll (makings later : List Making) (k : Nat) (x : String) (path : List String) :
    let s := start.makeAll makings
    let h := History.start.makeAll makings
    s.heap.follow (s.address k) x path =
        ((h.scope k).follow x path).map (Option.map (itemAt s.address)) ∧
      (∀ name, (s.reserve k name).find s.heap.length x =
        ((h.initialising k name).lookup x).map (itemAt s.address)) ∧
      (s.makeAll later).heap.follow (s.address k) x path = s.heap.follow (s.address k) x path := by
  have hr := represents_makeAll makings
  exact ⟨hr.follow (History.describes_makeAll makings) k x path, fun name => hr.find_reserve k name x,
    hr.follow_of_extends (Store.extends_makeAll _ later) k x path⟩

/-- The second scope is filled in place, and the path goes round its cycle. -/
example : (start.makeAll [.extend 0 "f" (some "outer"), .extendRec 1 "f" (some "loop")]).heap.follow 2 "f"
    ["f", "f"] = .ok (some ("loop", some 2)) := by rfl

end TypedLet.Scope
