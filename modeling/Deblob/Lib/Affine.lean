import Mathlib.Algebra.Field.Defs
import Mathlib.Algebra.Group.Basic
import Mathlib.Tactic.Ring

/-!
# Affine maps of a line

A factor and an offset. Two affine maps are equal if they agree at zero and at one, and an affine
map whose factor is not zero loses nothing.
-/

namespace Deblob.Lib

/-- The map `x * factor + offset`. -/
@[ext]
structure Affine (F : Type*) where
  factor : F
  offset : F
deriving DecidableEq

namespace Affine

variable {F : Type*}

def apply [Mul F] [Add F] (map : Affine F) (x : F) : F := x * map.factor + map.offset

/-- Apply `inner`, then `outer`. -/
def comp [Mul F] [Add F] (outer inner : Affine F) : Affine F :=
  ⟨inner.factor * outer.factor, inner.offset * outer.factor + outer.offset⟩

def refl (F : Type*) [Zero F] [One F] : Affine F := ⟨1, 0⟩

section Ring

variable [CommRing F]

@[simp]
theorem apply_refl (x : F) : (refl F).apply x = x := by
  simp [refl, apply]

@[simp]
theorem apply_comp (outer inner : Affine F) (x : F) :
    (outer.comp inner).apply x = outer.apply (inner.apply x) := by
  simp only [comp, apply]
  ring

@[simp]
theorem comp_refl (map : Affine F) : map.comp (refl F) = map := by
  simp [refl, comp]

@[simp]
theorem refl_comp (map : Affine F) : (refl F).comp map = map := by
  simp [refl, comp]

theorem comp_assoc (third second first : Affine F) :
    (third.comp second).comp first = third.comp (second.comp first) := by
  ext
  · simp only [comp, mul_assoc]
  · simp only [comp]
    ring

theorem eq_of_apply {left right : Affine F} (hzero : left.apply 0 = right.apply 0)
    (hone : left.apply 1 = right.apply 1) : left = right := by
  have hoffset : left.offset = right.offset := by simpa [apply] using hzero
  have hfactor : left.factor = right.factor := by simpa [apply, hoffset] using hone
  exact Affine.ext hfactor hoffset

end Ring

theorem apply_injective [CommRing F] [IsDomain F] {map : Affine F} (hfactor : map.factor ≠ 0) :
    Function.Injective map.apply := fun _ _ heq ↦
  mul_right_cancel₀ hfactor (add_right_cancel heq)

end Affine

end Deblob.Lib
