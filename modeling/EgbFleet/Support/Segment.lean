import EgbFleet.Support.Procrustes
import Mathlib.Analysis.Convex.Segment

/-!
# Support — the nearest point of a segment

The foot of the perpendicular from `p` to the line through `a` and `b` is at `a + t (b - a)`, for
`t = project p a b`.  Clamped to the segment, it is the point nearest to `p` (`isLeast_nearest`).

The argument is one inequality: seen from the clamped `t`, no `s` of `[0, 1]` is on the side of the
`t` before it was clamped (`clamp_obtuse`).
-/

noncomputable section

namespace Plane

/-- `x`, clamped to `[0, 1]`. -/
def clamp (x : ℝ) : ℝ := max 0 (min 1 x)

theorem clamp_mem (x : ℝ) : clamp x ∈ Set.Icc (0 : ℝ) 1 :=
  ⟨le_max_left _ _, max_le zero_le_one (min_le_left _ _)⟩

theorem clamp_obtuse {s : ℝ} (hs : s ∈ Set.Icc (0 : ℝ) 1) (x : ℝ) :
    0 ≤ (s - clamp x) * (clamp x - x) := by
  obtain ⟨h₀, h₁⟩ := hs
  rcases le_total x 0 with hx | hx
  · -- clamped from below
    have : clamp x = 0 := by rw [clamp, min_eq_right (hx.trans zero_le_one), max_eq_left hx]
    rw [this]
    exact mul_nonneg (sub_nonneg.mpr h₀) (sub_nonneg.mpr hx)
  · rcases le_total x 1 with hx' | hx'
    · have : clamp x = x := by rw [clamp, min_eq_right hx', max_eq_right hx]
      rw [this, sub_self, mul_zero]
    · -- clamped from above
      have : clamp x = 1 := by rw [clamp, min_eq_left hx', max_eq_right zero_le_one]
      rw [this]
      exact mul_nonneg_of_nonpos_of_nonpos (sub_nonpos.mpr h₁) (sub_nonpos.mpr hx')

/-- Where the foot of the perpendicular from `p` is on the line from `a` to `b`. -/
def project (p a b : ℝ × ℝ) : ℝ := dot (p - a) (b - a) / dot (b - a) (b - a)

/-- The point of the segment from `a` to `b` that is nearest to `p`. -/
def nearest (p a b : ℝ × ℝ) : ℝ × ℝ := a + clamp (project p a b) • (b - a)

/-- Two points of the line, compared by how far they are from `p`. -/
theorem norm_sq_sub {p a b : ℝ × ℝ} (hab : b - a ≠ 0) (s t : ℝ) :
    norm (p - (a + s • (b - a))) ^ 2 = norm (p - (a + t • (b - a))) ^ 2 +
      dot (b - a) (b - a) * ((s - t) ^ 2 + 2 * ((s - t) * (t - project p a b))) := by
  have hproj : project p a b * dot (b - a) (b - a) = dot (p - a) (b - a) :=
    div_mul_cancel₀ _ (dot_self_pos hab).ne'
  generalize project p a b = x at hproj ⊢
  simp only [norm_sq, dot, Prod.fst_sub, Prod.snd_sub, Prod.fst_add, Prod.snd_add, Prod.smul_fst,
    Prod.smul_snd, smul_eq_mul] at hproj ⊢
  linear_combination 2 * (s - t) * hproj

theorem nearest_mem (p a b : ℝ × ℝ) : nearest p a b ∈ segment ℝ a b := by
  rw [segment_eq_image']
  exact ⟨_, clamp_mem _, rfl⟩

theorem norm_sub_nearest_le {p a b q : ℝ × ℝ} (hq : q ∈ segment ℝ a b) (hab : b - a ≠ 0) :
    norm (p - nearest p a b) ≤ norm (p - q) := by
  rw [segment_eq_image'] at hq
  obtain ⟨s, hs, rfl⟩ := hq
  refine (sq_le_sq₀ (norm_nonneg _) (norm_nonneg _)).mp ?_
  rw [norm_sq_sub hab s (clamp (project p a b)), nearest]
  have hobtuse := clamp_obtuse hs (project p a b)
  have hpos := (dot_self_pos hab).le
  exact le_add_of_nonneg_right (mul_nonneg hpos (by positivity))

/-- **The nearest point of a segment.** -/
theorem isLeast_nearest (p : ℝ × ℝ) {a b : ℝ × ℝ} (hab : b - a ≠ 0) :
    IsLeast ((fun q => norm (p - q)) '' segment ℝ a b) (norm (p - nearest p a b)) := by
  constructor
  · exact ⟨_, nearest_mem p a b, rfl⟩
  · rintro _ ⟨q, hq, rfl⟩
    exact norm_sub_nearest_le hq hab

end Plane

end
