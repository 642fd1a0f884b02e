import EgbFleet.Support.Procrustes
import Mathlib.Analysis.SpecialFunctions.Complex.Arg

/-!
# Support — directions in the plane

`direction v` is the angle of a vector, up to full turns.  A positive factor leaves it as it is, a
rotation by `θ` adds `θ`, the opposite vector has the opposite direction; so a similarity turns the
direction from one point to another by its rotation (`direction_map_sub_map`).

Polar coordinates are unique up to full turns, `polar_unique`; the map of a similarity depends on
its rotation only up to these, `Similarity.map_congr`.
-/

noncomputable section

namespace Plane

open Real

/-- The direction of a vector, up to full turns; that of 0 is 0. -/
def direction (v : ℝ × ℝ) : Angle := (atan2 v.2 v.1 : ℝ)

/-- A vector as a complex number. -/
theorem mk_ne_zero {v : ℝ × ℝ} (hv : v ≠ 0) : (⟨v.1, v.2⟩ : ℂ) ≠ 0 := by
  intro h
  exact hv (Prod.ext (congrArg Complex.re h) (congrArg Complex.im h))

@[simp] theorem direction_smul {k : ℝ} (hk : 0 < k) (v : ℝ × ℝ) :
    direction (k • v) = direction v := by
  have hmul : (⟨(k • v).1, (k • v).2⟩ : ℂ) = k * ⟨v.1, v.2⟩ := by
    apply Complex.ext <;> simp
  simp only [direction, atan2, hmul, Complex.arg_real_mul _ hk]

theorem direction_neg {v : ℝ × ℝ} (hv : v ≠ 0) : direction (-v) = direction v + π := by
  have hneg : (⟨(-v).1, (-v).2⟩ : ℂ) = -⟨v.1, v.2⟩ := by
    apply Complex.ext <;> simp
  simp only [direction, atan2, hneg]
  exact Complex.arg_neg_coe_angle (mk_ne_zero hv)

theorem direction_rotate (θ : ℝ) {v : ℝ × ℝ} (hv : v ≠ 0) :
    direction (rotate θ v) = direction v + θ := by
  -- to turn a vector is to multiply it by a number of that angle
  have hturn : (⟨(rotate θ v).1, (rotate θ v).2⟩ : ℂ) =
      ⟨v.1, v.2⟩ * (Angle.cos θ + Angle.sin θ * Complex.I) := by
    apply Complex.ext <;> simp [rotate, -Complex.ofReal_cos, -Complex.ofReal_sin] <;> ring
  have hunit : (Angle.cos θ + Angle.sin θ * Complex.I : ℂ) ≠ 0 := by
    intro h
    have hre := congrArg Complex.re h
    have him := congrArg Complex.im h
    simp [-Complex.ofReal_cos, -Complex.ofReal_sin] at hre him
    have := cos_sq_add_sin_sq θ
    rw [hre, him] at this
    norm_num at this
  simp only [direction, atan2, hturn]
  rw [Complex.arg_mul_coe_angle (mk_ne_zero hv) hunit, Complex.arg_cos_add_sin_mul_I_coe_angle]

/-- A similarity turns the direction from a point to another. -/
theorem direction_map_sub_map (T : Similarity) {p q : ℝ × ℝ} (hpq : p ≠ q) :
    direction (T.map p - T.map q) = direction (p - q) + T.rotation := by
  rw [T.map_sub_map, direction_smul T.scale_pos, direction_rotate _ (sub_ne_zero.mpr hpq)]

/-- The length and the direction of a vector other than 0. -/
theorem polar_unique {r s θ φ : ℝ} (hr : 0 < r) (hs : 0 ≤ s) (hcos : r * cos θ = s * cos φ)
    (hsin : r * sin θ = s * sin φ) : r = s ∧ (θ : Angle) = φ := by
  have hsq : r ^ 2 = s ^ 2 := by
    linear_combination (r * cos θ + s * cos φ) * hcos + (r * sin θ + s * sin φ) * hsin
      - r ^ 2 * sin_sq_add_cos_sq θ + s ^ 2 * sin_sq_add_cos_sq φ
  obtain rfl : r = s := (sq_eq_sq₀ hr.le hs).mp hsq
  exact ⟨rfl, Angle.cos_sin_inj (mul_left_cancel₀ hr.ne' hcos) (mul_left_cancel₀ hr.ne' hsin)⟩

theorem Similarity.map_congr {T T' : Similarity} (hrotation : (T.rotation : Angle) = T'.rotation)
    (hscale : T.scale = T'.scale) (htranslation : T.translation = T'.translation) :
    T.map = T'.map := by
  have hcos : cos T.rotation = cos T'.rotation := congrArg Angle.cos hrotation
  have hsin : sin T.rotation = sin T'.rotation := congrArg Angle.sin hrotation
  funext p
  simp only [Similarity.map, rotate, hcos, hsin, hscale, htranslation]

theorem Similarity.map_injective (T : Similarity) : Function.Injective T.map :=
  Function.LeftInverse.injective T.unmap_map

end Plane

end
