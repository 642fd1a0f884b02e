import Mathlib.Analysis.SpecialFunctions.Trigonometric.Basic

/-!
# Support — similarities of the plane

`rotate θ` turns the plane about the origin.  A `Similarity` rotates, scales by a positive factor
and translates, in this order; `map` applies it to a point and `unmap` undoes it.
-/

noncomputable section

namespace Plane

open Real

/-- The length of a vector. -/
def norm (p : ℝ × ℝ) : ℝ := √(p.1 ^ 2 + p.2 ^ 2)

/-- `p`, turned by `θ` about the origin. -/
def rotate (θ : ℝ) (p : ℝ × ℝ) : ℝ × ℝ :=
  (cos θ * p.1 - sin θ * p.2, sin θ * p.1 + cos θ * p.2)

@[simp] theorem rotate_zero (p : ℝ × ℝ) : rotate 0 p = p := by
  simp [rotate]

theorem rotate_rotate (θ φ : ℝ) (p : ℝ × ℝ) : rotate θ (rotate φ p) = rotate (θ + φ) p := by
  ext <;> simp only [rotate, cos_add, sin_add] <;> ring

@[simp] theorem rotate_neg_rotate (θ : ℝ) (p : ℝ × ℝ) : rotate (-θ) (rotate θ p) = p := by
  rw [rotate_rotate, neg_add_cancel, rotate_zero]

@[simp] theorem rotate_rotate_neg (θ : ℝ) (p : ℝ × ℝ) : rotate θ (rotate (-θ) p) = p := by
  rw [rotate_rotate, add_neg_cancel, rotate_zero]

/-- A rotation, then a scaling, then a translation. -/
@[ext]
structure Similarity where
  rotation : ℝ
  scale : ℝ
  translation : ℝ × ℝ
  scale_pos : 0 < scale

namespace Similarity

def map (T : Similarity) (p : ℝ × ℝ) : ℝ × ℝ := T.scale • rotate T.rotation p + T.translation

def unmap (T : Similarity) (q : ℝ × ℝ) : ℝ × ℝ :=
  rotate (-T.rotation) (T.scale⁻¹ • (q - T.translation))

@[simp] theorem unmap_map (T : Similarity) (p : ℝ × ℝ) : T.unmap (T.map p) = p := by
  rw [unmap, map, add_sub_cancel_right, inv_smul_smul₀ T.scale_pos.ne', rotate_neg_rotate]

@[simp] theorem map_unmap (T : Similarity) (q : ℝ × ℝ) : T.map (T.unmap q) = q := by
  rw [unmap, map, rotate_rotate_neg, smul_inv_smul₀ T.scale_pos.ne', sub_add_cancel]

end Similarity

end Plane

end
