import TypedLet.Numeral
import TypedLet.Token.Lexer

/-!
# Words and numbers in characters

Which units make a word or a number is told in units of the text. Every such unit is an ASCII character,
so the same can be told in characters, and a text of characters that are one unit each is found again in
its units.
-/

namespace TypedLet.Text

/-- An ASCII letter or an underscore. -/
def isNameStart (c : Char) : Bool :=
  ('a' ≤ c && c ≤ 'z') || ('A' ≤ c && c ≤ 'Z') || c == '_'

/-- What can stand in a name behind its first character. -/
def isNamePart (c : Char) : Bool :=
  isNameStart c || Numeral.isDigit c || c == '?'

/-- Whether the text is at least one ASCII digit and nothing else. -/
def isDigits (s : String) : Bool :=
  !s.toList.isEmpty && s.toList.all Numeral.isDigit

/-- Whether the text is a word: it matches `[A-Za-z_][A-Za-z0-9_?]*`. -/
def isWord (s : String) : Bool :=
  match s.toList with
  | [] => false
  | c :: cs => isNameStart c && cs.all isNamePart

/-- Whether the text can be a name: a word that is no keyword. -/
def isName (s : String) : Bool :=
  isWord s && !(Token.keywords.map Prod.fst).contains s

example : isName "zero?" = false := by decide

/-! ## Codes -/

theorem isDigit_iff {c : Char} : Numeral.isDigit c = true ↔ 48 ≤ c.toNat ∧ c.toNat ≤ 57 := by
  simp only [Numeral.isDigit, Bool.and_eq_true, decide_eq_true_eq, Char.le_def, UInt32.le_iff_toNat_le]
  rfl

theorem isNameStart_iff {c : Char} : isNameStart c = true ↔
    (97 ≤ c.toNat ∧ c.toNat ≤ 122) ∨ (65 ≤ c.toNat ∧ c.toNat ≤ 90) ∨ c.toNat = 95 := by
  simp only [isNameStart, Bool.or_eq_true, Bool.and_eq_true, decide_eq_true_eq, Char.le_def,
    UInt32.le_iff_toNat_le, beq_iff_eq, ← Char.toNat_inj, or_assoc]
  rfl

theorem isNamePart_iff {c : Char} : isNamePart c = true ↔
    isNameStart c = true ∨ Numeral.isDigit c = true ∨ c.toNat = 63 := by
  simp only [isNamePart, Bool.or_eq_true, beq_iff_eq, ← Char.toNat_inj, or_assoc]
  rfl

end TypedLet.Text

namespace TypedLet.Lexer

theorem isDigit_iff {u : UInt16} : isDigit u = true ↔ 48 ≤ u.toNat ∧ u.toNat ≤ 57 := by
  simp only [isDigit, Bool.and_eq_true, decide_eq_true_eq, UInt16.le_iff_toNat_le]
  rfl

theorem isWordStart_iff {u : UInt16} : isWordStart u = true ↔
    (97 ≤ u.toNat ∧ u.toNat ≤ 122) ∨ (65 ≤ u.toNat ∧ u.toNat ≤ 90) ∨ u.toNat = 95 := by
  simp only [isWordStart, Bool.or_eq_true, Bool.and_eq_true, decide_eq_true_eq, beq_iff_eq,
    UInt16.le_iff_toNat_le, ← UInt16.toNat_inj, or_assoc]
  rfl

theorem isWordPart_iff {u : UInt16} : isWordPart u = true ↔
    isWordStart u = true ∨ isDigit u = true ∨ u.toNat = 63 := by
  simp only [isWordPart, Bool.or_eq_true, beq_iff_eq, ← UInt16.toNat_inj, or_assoc]
  rfl

end TypedLet.Lexer

namespace TypedLet.Text

/-! ## Characters of one unit -/

theorem toNat_unitChar {u : UInt16} (h : u.toNat < 0xD800) : (unitChar u).toNat = u.toNat := by
  have hlow : ¬ (0xD800 ≤ u.toNat ∧ u.toNat < 0xE000) := by omega
  have hvalid : u.toNat.isValidChar := .inl h
  rw [unitChar, if_neg hlow, Char.ofNat, dif_pos hvalid]
  rfl

/-- No unit with a code that high makes a word or a number. -/
theorem le_toNat_unitChar {u : UInt16} (h : 0xD800 ≤ u.toNat) : 128 ≤ (unitChar u).toNat := by
  by_cases hhalf : u.toNat < 0xE000
  · rw [unitChar, if_pos ⟨h, hhalf⟩]
    decide
  · have hnot : ¬ (0xD800 ≤ u.toNat ∧ u.toNat < 0xE000) := by omega
    have hvalid : u.toNat.isValidChar := .inr ⟨by omega, by have := u.toNat_lt; omega⟩
    rw [unitChar, if_neg hnot, Char.ofNat, dif_pos hvalid]
    exact Nat.le_trans (by decide) h

/-- What holds of low codes only holds of a unit and of its character at once. -/
theorem iff_unitChar {P : Nat → Prop} (hP : ∀ n, P n → n < 128) (u : UInt16) :
    P (unitChar u).toNat ↔ P u.toNat := by
  by_cases h : u.toNat < 0xD800
  · rw [toNat_unitChar h]
  · have hhigh := le_toNat_unitChar (Nat.le_of_not_lt h)
    constructor
    · intro hu
      exact absurd (hP _ hu) (by omega)
    · intro hu
      exact absurd (hP _ hu) (by omega)

theorem isDigit_unitChar (u : UInt16) : Numeral.isDigit (unitChar u) = Lexer.isDigit u := by
  rw [Bool.eq_iff_iff, isDigit_iff, Lexer.isDigit_iff]
  exact iff_unitChar (P := fun n => 48 ≤ n ∧ n ≤ 57) (by omega) u

theorem isNameStart_unitChar (u : UInt16) : isNameStart (unitChar u) = Lexer.isWordStart u := by
  rw [Bool.eq_iff_iff, isNameStart_iff, Lexer.isWordStart_iff]
  exact iff_unitChar
    (P := fun n => (97 ≤ n ∧ n ≤ 122) ∨ (65 ≤ n ∧ n ≤ 90) ∨ n = 95) (by omega) u

theorem isNamePart_unitChar (u : UInt16) : isNamePart (unitChar u) = Lexer.isWordPart u := by
  rw [Bool.eq_iff_iff, isNamePart_iff, Lexer.isWordPart_iff, isNameStart_unitChar, isDigit_unitChar]
  have hmark := iff_unitChar (P := fun n => n = 63) (by omega) u
  rw [hmark]

theorem charUnits_of_lt {c : Char} (h : c.toNat < 0x10000) : charUnits c = [Lexer.unit c] := by
  rw [charUnits, if_pos h]
  rfl

/-- A character of one unit is the character of that unit. -/
theorem unitChar_unit {c : Char} (h : c.toNat < 0x10000) : unitChar (Lexer.unit c) = c := by
  have hcode : (Lexer.unit c).toNat = c.toNat := UInt16.toNat_ofNat_of_lt' h
  have hvalid : ¬ (0xD800 ≤ c.toNat ∧ c.toNat < 0xE000) := by
    have hc : c.toNat.isValidChar := c.valid
    rcases hc with hc | hc <;> omega
  rw [unitChar, hcode, if_neg hvalid, Char.ofNat_toNat]

theorem units_of_lt {s : String} (h : ∀ c ∈ s.toList, c.toNat < 0x10000) :
    units s = s.toList.map Lexer.unit := by
  unfold units
  generalize s.toList = cs at h ⊢
  induction cs with
  | nil => rfl
  | cons c cs ih =>
      rw [List.flatMap_cons, charUnits_of_lt (h c List.mem_cons_self),
        ih fun d hd => h d (List.mem_cons_of_mem c hd)]
      rfl

/-- A text of characters of one unit is found again in its units. -/
theorem map_unitChar_units {s : String} (h : ∀ c ∈ s.toList, c.toNat < 0x10000) :
    (units s).map unitChar = s.toList := calc
  (units s).map unitChar = s.toList.map (unitChar ∘ Lexer.unit) := by
    rw [units_of_lt h, List.map_map]
  _ = s.toList.map id := List.map_congr_left fun c hc => unitChar_unit (h c hc)
  _ = s.toList := List.map_id _

theorem ofUnits_units {s : String} (h : ∀ c ∈ s.toList, c.toNat < 0x10000) : ofUnits (units s) = s := by
  rw [ofUnits, map_unitChar_units h, String.ofList_toList]

/-! ## Numbers and names in units -/

theorem lt_of_isNamePart {c : Char} (h : isNamePart c = true) : c.toNat < 0x10000 := by
  rw [isNamePart_iff, isNameStart_iff, isDigit_iff] at h
  omega

theorem isNamePart_of_isNameStart {c : Char} (h : isNameStart c = true) : isNamePart c = true :=
  isNamePart_iff.2 (.inl h)

theorem isNamePart_of_isDigit {c : Char} (h : Numeral.isDigit c = true) : isNamePart c = true :=
  isNamePart_iff.2 (.inr (.inl h))

/-- A word is a unit that starts one and units that stand in one, and is found again in them. -/
theorem exists_units_of_isWord {s : String} (h : isWord s = true) :
    ∃ u us, units s = u :: us ∧ Lexer.isWordStart u = true ∧ (∀ v ∈ us, Lexer.isWordPart v = true) ∧
      ofUnits (units s) = s := by
  unfold isWord at h
  cases hs : s.toList with
  | nil => rw [hs] at h; cases h
  | cons c cs =>
      rw [hs, Bool.and_eq_true, List.all_eq_true] at h
      obtain ⟨hc, hcs⟩ := h
      have hlow : ∀ d ∈ s.toList, d.toNat < 0x10000 := by
        rw [hs]
        intro d hd
        rcases List.mem_cons.1 hd with rfl | hd
        · exact lt_of_isNamePart (isNamePart_of_isNameStart hc)
        · exact lt_of_isNamePart (hcs d hd)
      refine ⟨Lexer.unit c, cs.map Lexer.unit, by rw [units_of_lt hlow, hs]; rfl, ?_, ?_,
        ofUnits_units hlow⟩
      · rw [← isNameStart_unitChar, unitChar_unit (hlow c (hs ▸ List.mem_cons_self))]
        exact hc
      · intro v hv
        obtain ⟨d, hd, rfl⟩ := List.mem_map.1 hv
        rw [← isNamePart_unitChar, unitChar_unit (hlow d (hs ▸ List.mem_cons_of_mem c hd))]
        exact hcs d hd

/-- A number is units that are digits, and is found again in them. -/
theorem exists_units_of_isDigits {s : String} (h : isDigits s = true) :
    ∃ u us, units s = u :: us ∧ Lexer.isDigit u = true ∧ (∀ v ∈ us, Lexer.isDigit v = true) ∧
      ofUnits (units s) = s := by
  unfold isDigits at h
  cases hs : s.toList with
  | nil => rw [hs] at h; cases h
  | cons c cs =>
      rw [Bool.and_eq_true, List.all_eq_true] at h
      obtain ⟨-, hall⟩ := h
      have hlow : ∀ d ∈ s.toList, d.toNat < 0x10000 := fun d hd =>
        lt_of_isNamePart (isNamePart_of_isDigit (hall d hd))
      have hunits : ∀ v ∈ units s, Lexer.isDigit v = true := by
        rw [units_of_lt hlow]
        intro v hv
        obtain ⟨d, hd, rfl⟩ := List.mem_map.1 hv
        rw [← isDigit_unitChar, unitChar_unit (hlow d hd)]
        exact hall d hd
      have hcons : units s = Lexer.unit c :: cs.map Lexer.unit := by
        rw [units_of_lt hlow, hs]
        rfl
      refine ⟨_, _, hcons, ?_, ?_, ofUnits_units hlow⟩
      · exact hunits _ (hcons ▸ List.mem_cons_self)
      · exact fun v hv => hunits v (hcons ▸ List.mem_cons_of_mem _ hv)

theorem head?_ne_minus_of_isDigits {s : String} (h : isDigits s = true) :
    s.toList.head? ≠ some '-' := by
  intro hhead
  simp only [isDigits, Bool.and_eq_true, List.all_eq_true] at h
  exact absurd (h.2 _ (List.mem_of_mem_head? hhead)) (by decide)

/-- Without a minus sign in front there is no sign to take off. -/
theorem digits_of_head?_ne_minus {s : String} (h : s.toList.head? ≠ some '-') :
    Numeral.digits s.toList = s.toList := by
  unfold Numeral.digits
  split
  · rename_i hs
    exact absurd (by rw [hs]; rfl) h
  · rfl

theorem digits_of_isDigits {s : String} (h : isDigits s = true) :
    Numeral.digits s.toList = s.toList :=
  digits_of_head?_ne_minus (head?_ne_minus_of_isDigits h)

theorem isNumeral_of_isDigits {s : String} (h : isDigits s = true) : Numeral.isNumeral s = true := by
  rw [Numeral.isNumeral, digits_of_isDigits h]
  exact h

theorem value_nonneg_of_isDigits {s : String} (h : isDigits s = true) : 0 ≤ Numeral.value s := by
  rw [Numeral.value, if_neg (head?_ne_minus_of_isDigits h)]
  exact Int.natCast_nonneg _

end TypedLet.Text
