import Mathlib.Logic.Function.Defs
import TypedLet.Proofs.Token.Words
import TypedLet.Ty

/-!
# The text of a type tells the type

The texts of types are prefix-free: the first character tells the form, and the brackets around an arrow
where its two sides end. So a text that begins with that of a type does so for one type alone, and types
with the same text are the same. It holds in units as well, and there with any units behind the text,
halves of a pair by themselves included.
-/

namespace TypedLet.Ty

/-! ## In characters -/

/-- Texts that begin with types and are the same begin with the same type and go on in the same way. -/
theorem render_prefixFree {a b : Ty} {r s : List Char}
    (h : a.render.toList ++ r = b.render.toList ++ s) : a = b ∧ r = s := by
  induction a generalizing b r s with
  | int =>
      cases b with
      | int => exact ⟨rfl, by simpa using h⟩
      | bool | arrow => simp at h
  | bool =>
      cases b with
      | bool => exact ⟨rfl, by simpa using h⟩
      | int | arrow => simp at h
  | arrow a₁ a₂ ih₁ ih₂ =>
      cases b with
      | int | bool => simp at h
      | arrow b₁ b₂ =>
          simp only [render_arrow, String.toList_append, List.append_assoc,
            List.append_cancel_left_eq] at h
          obtain ⟨rfl, hcodomain⟩ := ih₁ h
          obtain ⟨rfl, hend⟩ := ih₂ (List.append_cancel_left hcodomain)
          exact ⟨rfl, List.append_cancel_left hend⟩

theorem render_injective : Function.Injective render := by
  intro a b h
  exact (render_prefixFree (r := []) (s := []) (by rw [h])).1

/-! ## In units -/

theorem lt_of_mem_render (a : Ty) : ∀ c ∈ a.render.toList, c.toNat < 0x10000 := by
  induction a with
  | int | bool => simp
  | arrow domain codomain ihd ihc =>
      simp only [render_arrow, String.toList_append, List.forall_mem_append]
      exact ⟨⟨⟨⟨by simp, ihd⟩, by simp⟩, ihc⟩, by simp⟩

theorem units_render_append_inj {a b : Ty} {r s : List UInt16} :
    Text.units a.render ++ r = Text.units b.render ++ s ↔ a = b ∧ r = s := by
  constructor
  · intro h
    -- Unlike units of the rests can have one character, so the map tells the type only.
    have hchars : a.render.toList ++ r.map Text.unitChar =
        b.render.toList ++ s.map Text.unitChar := by
      have hmap := congrArg (List.map Text.unitChar) h
      rwa [List.map_append, List.map_append, Text.map_unitChar_units (lt_of_mem_render a),
        Text.map_unitChar_units (lt_of_mem_render b)] at hmap
    obtain ⟨rfl, -⟩ := render_prefixFree hchars
    exact ⟨rfl, List.append_cancel_left h⟩
  · rintro ⟨rfl, rfl⟩
    rfl

theorem units_render_prefix_iff {a b : Ty} :
    Text.units a.render <+: Text.units b.render ↔ a = b := by
  constructor
  · rintro ⟨r, hr⟩
    rw [← List.append_nil (Text.units b.render)] at hr
    exact (units_render_append_inj.1 hr).1
  · rintro rfl
    exact List.prefix_rfl

/-- Types are the same exactly when their shapes are, and exactly when their texts are. No text of a type
begins that of another, so a text that begins with it tells the type and where it ends, whatever units
follow. -/
theorem render_determines (a b : Ty) :
    (a.sameShape b = true ↔ a = b) ∧ (a = b ↔ a.render = b.render) ∧
      (Text.units a.render <+: Text.units b.render ↔ a = b) ∧
      ∀ r s : List UInt16, Text.units a.render ++ r = Text.units b.render ++ s ↔ a = b ∧ r = s :=
  ⟨sameShape_iff, render_injective.eq_iff.symm, units_render_prefix_iff,
    fun _ _ => units_render_append_inj⟩

end TypedLet.Ty
