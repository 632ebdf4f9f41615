import Mathlib.Algebra.Group.Basic
import Mathlib.Data.List.Basic

/-! # Pads over a group

A text is padded by adding a mask to it, symbol by symbol, and read again by subtracting the
mask. Whatever the symbols are, the two undo each other on texts as long as the mask, so a
padded text belongs to one text only.
-/

namespace Cipher

variable {G : Type} [AddGroup G] {mask text secret : List G}

def pad (mask text : List G) : List G := List.zipWith (fun x y => x + y) text mask

def unpad (mask text : List G) : List G := List.zipWith (fun x y => x - y) text mask

theorem length_pad (hlength : mask.length = text.length) :
    (pad mask text).length = text.length := by
  simp [pad, hlength]

theorem unpad_pad (hlength : mask.length = text.length) : unpad mask (pad mask text) = text := by
  induction text generalizing mask with
  | nil => rfl
  | cons x text ih =>
      cases mask with
      | nil => cases hlength
      | cons y mask =>
          have hrest : unpad mask (pad mask text) = text := ih (Nat.succ.inj hlength)
          exact List.cons_eq_cons.mpr ⟨add_sub_cancel_right x y, hrest⟩

theorem pad_unpad (hlength : mask.length = text.length) : pad mask (unpad mask text) = text := by
  induction text generalizing mask with
  | nil => rfl
  | cons x text ih =>
      cases mask with
      | nil => cases hlength
      | cons y mask =>
          have hrest : pad mask (unpad mask text) = text := ih (Nat.succ.inj hlength)
          exact List.cons_eq_cons.mpr ⟨sub_add_cancel x y, hrest⟩

end Cipher
