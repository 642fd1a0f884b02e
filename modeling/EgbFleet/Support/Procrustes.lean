import EgbFleet.Support.Plane
import Mathlib.LinearAlgebra.Matrix.Determinant.Basic
import Mathlib.Algebra.Order.BigOperators.Group.List
import Mathlib.Analysis.SpecialFunctions.Complex.Arg

/-!
# Support — fitting a similarity to pairs of points

The pairs are points of the plane and where a similarity should take them.  Moved so that both
centroids are the origin, they have three moments: `inertia`, of the points, and `along` and
`across`, of the pairs.

* The rotation a singular value decomposition of the covariance yields is the angle of
  `(along, across)`, whichever decomposition it is (`nearestRotation_spec`).
* For a given rotation, a scale and a translation leave the least sum of squares iff the translation
  matches the centroids and the scale is a quotient of the moments (`residual_least_iff`).
-/

noncomputable section

namespace Plane

open Real Matrix

/-! ### Products of vectors -/

def dot (p q : ℝ × ℝ) : ℝ := p.1 * q.1 + p.2 * q.2

def cross (p q : ℝ × ℝ) : ℝ := p.1 * q.2 - p.2 * q.1

theorem norm_nonneg (p : ℝ × ℝ) : 0 ≤ norm p := sqrt_nonneg _

theorem norm_sq (p : ℝ × ℝ) : norm p ^ 2 = dot p p := by
  rw [norm, sq_sqrt (by positivity), dot]
  ring

@[simp] theorem norm_eq_zero {p : ℝ × ℝ} : norm p = 0 ↔ p = 0 := by
  rw [norm, sqrt_eq_zero (by positivity)]
  constructor
  · intro h
    have h₁ : p.1 ^ 2 = 0 := by nlinarith [sq_nonneg p.1, sq_nonneg p.2]
    have h₂ : p.2 ^ 2 = 0 := by nlinarith [sq_nonneg p.1, sq_nonneg p.2]
    ext
    · simpa using h₁
    · simpa using h₂
  · intro h
    simp [h]

theorem dot_self_pos {v : ℝ × ℝ} (hv : v ≠ 0) : 0 < dot v v := by
  rw [← norm_sq]
  exact pow_pos ((norm_nonneg v).lt_of_ne' (mt norm_eq_zero.mp hv)) 2

theorem norm_smul_rotate {s : ℝ} (hs : 0 ≤ s) (θ : ℝ) (p : ℝ × ℝ) :
    norm (s • rotate θ p) = s * norm p := by
  have h : norm (s • rotate θ p) ^ 2 = (s * norm p) ^ 2 := by
    rw [mul_pow, norm_sq, norm_sq]
    simp only [dot, rotate, Prod.smul_fst, Prod.smul_snd, smul_eq_mul]
    linear_combination s ^ 2 * (p.1 ^ 2 + p.2 ^ 2) * sin_sq_add_cos_sq θ
  exact (sq_eq_sq₀ (norm_nonneg _) (mul_nonneg hs (norm_nonneg p))).mp h

theorem rotate_sub (θ : ℝ) (p q : ℝ × ℝ) : rotate θ (p - q) = rotate θ p - rotate θ q := by
  ext <;> simp [rotate] <;> ring

/-! ### Lists of points -/

/-- The mean of the points. -/
def centroid (ps : List (ℝ × ℝ)) : ℝ × ℝ := (ps.sum.1 / ps.length, ps.sum.2 / ps.length)

/-- How far the points are from their centroid, in all. -/
def spread (ps : List (ℝ × ℝ)) : ℝ := (ps.map fun p => norm (p - centroid ps)).sum

/-- The squares of how far the points are from their centroid, in all. -/
def inertia (ps : List (ℝ × ℝ)) : ℝ := (ps.map fun p => norm (p - centroid ps) ^ 2).sum

/-- Two of the points differ. -/
def Scattered (ps : List (ℝ × ℝ)) : Prop := ∃ p ∈ ps, ∃ q ∈ ps, p ≠ q

theorem Scattered.ne_nil {ps : List (ℝ × ℝ)} (h : Scattered ps) : ps ≠ [] := by
  rintro rfl
  obtain ⟨p, hp, -⟩ := h
  cases hp

theorem Scattered.two_le {ps : List (ℝ × ℝ)} (h : Scattered ps) : 2 ≤ ps.length := by
  obtain ⟨p, hp, q, hq, hne⟩ := h
  match ps with
  | [] => cases hp
  | [r] => exact absurd ((List.mem_singleton.mp hp).trans (List.mem_singleton.mp hq).symm) hne
  | _ :: _ :: _ => simp

theorem length_smul_centroid {ps : List (ℝ × ℝ)} (h : ps ≠ []) :
    (ps.length : ℝ) • centroid ps = ps.sum := by
  have hlen : (ps.length : ℝ) ≠ 0 := by simpa using h
  ext <;> simp [centroid, mul_div_cancel₀ _ hlen]

theorem sum_map_sub (ps : List (ℝ × ℝ)) (c : ℝ × ℝ) :
    (ps.map (· - c)).sum = ps.sum - (ps.length : ℝ) • c := by
  induction ps with
  | nil => simp
  | cons p ps ih =>
      simp only [List.map_cons, List.sum_cons, ih, List.length_cons, Nat.cast_add, Nat.cast_one,
        add_smul, one_smul]
      abel

/-- About their centroid, the points add up to nothing. -/
theorem sum_sub_centroid (ps : List (ℝ × ℝ)) : (ps.map (· - centroid ps)).sum = 0 := by
  by_cases h : ps = []
  · simp [h]
  · rw [sum_map_sub, length_smul_centroid h, sub_self]

/-- Points that are all one have that one as their centroid. -/
theorem centroid_of_not_scattered {ps : List (ℝ × ℝ)} (h : ¬ Scattered ps) {p : ℝ × ℝ}
    (hp : p ∈ ps) : centroid ps = p := by
  have hall : ps = List.replicate ps.length p := by
    refine List.eq_replicate_of_mem fun q hq => ?_
    by_contra hne
    exact h ⟨q, hq, p, hp, hne⟩
  have hlen : (ps.length : ℝ) ≠ 0 := by simpa using List.ne_nil_of_mem hp
  have hsum : ps.sum = (ps.length : ℝ) • p := by
    conv_lhs => rw [hall]
    rw [List.sum_replicate, Nat.cast_smul_eq_nsmul]
  ext <;> simp [centroid, hsum, mul_div_cancel_left₀ _ hlen]

/-- A measure of the distances from the centroid vanishes exactly if all points are one. -/
theorem sum_centred_eq_zero_iff {ps : List (ℝ × ℝ)} {f : ℝ × ℝ → ℝ} (hf : ∀ p, 0 ≤ f p)
    (hzero : ∀ p, f p = 0 ↔ p = 0) :
    (ps.map fun p => f (p - centroid ps)).sum = 0 ↔ ¬ Scattered ps := by
  constructor
  · rintro hsum ⟨p, hp, q, hq, hne⟩
    have hcentre : ∀ r ∈ ps, r = centroid ps := by
      intro r hr
      refine sub_eq_zero.mp ((hzero _).mp ?_)
      refine List.all_zero_of_le_zero_le_of_sum_eq_zero ?_ hsum (List.mem_map_of_mem hr)
      simp only [List.mem_map]
      rintro _ ⟨r, -, rfl⟩
      exact hf _
    exact hne ((hcentre p hp).trans (hcentre q hq).symm)
  · intro h
    refine List.sum_eq_zero ?_
    simp only [List.mem_map]
    rintro _ ⟨p, hp, rfl⟩
    rw [centroid_of_not_scattered h hp, sub_self, hzero]

theorem sum_centred_nonneg (ps : List (ℝ × ℝ)) {f : ℝ × ℝ → ℝ} (hf : ∀ p, 0 ≤ f p) :
    0 ≤ (ps.map fun p => f (p - centroid ps)).sum := by
  refine List.sum_nonneg ?_
  simp only [List.mem_map]
  rintro _ ⟨p, -, rfl⟩
  exact hf _

theorem spread_nonneg (ps : List (ℝ × ℝ)) : 0 ≤ spread ps :=
  sum_centred_nonneg ps norm_nonneg

theorem spread_eq_zero_iff {ps : List (ℝ × ℝ)} : spread ps = 0 ↔ ¬ Scattered ps :=
  sum_centred_eq_zero_iff norm_nonneg fun _ => norm_eq_zero

theorem spread_pos_iff {ps : List (ℝ × ℝ)} : 0 < spread ps ↔ Scattered ps := by
  rw [lt_iff_le_and_ne, ne_comm, Ne, spread_eq_zero_iff, not_not]
  exact and_iff_right (spread_nonneg ps)

theorem inertia_pos {ps : List (ℝ × ℝ)} (h : Scattered ps) : 0 < inertia ps := by
  have hf : ∀ p, 0 ≤ norm p ^ 2 := fun p => sq_nonneg _
  have hne : inertia ps ≠ 0 := fun hzero =>
    (sum_centred_eq_zero_iff hf fun p => by simp).mp hzero h
  exact lt_of_le_of_ne (sum_centred_nonneg ps hf) hne.symm

/-! ### A similarity of the points -/

namespace Similarity

theorem sum_map (T : Similarity) (ps : List (ℝ × ℝ)) :
    (ps.map T.map).sum =
      T.scale • rotate T.rotation ps.sum + (ps.length : ℝ) • T.translation := by
  induction ps with
  | nil => ext <;> simp [rotate]
  | cons p ps ih =>
      simp only [List.map_cons, List.sum_cons, ih, map, List.length_cons, Nat.cast_add,
        Nat.cast_one, add_smul, one_smul]
      ext <;> simp [rotate] <;> ring

theorem centroid_map (T : Similarity) {ps : List (ℝ × ℝ)} (h : ps ≠ []) :
    centroid (ps.map T.map) = T.map (centroid ps) := by
  have hlen : (ps.length : ℝ) ≠ 0 := by simpa using h
  simp only [centroid, sum_map, List.length_map, map, rotate]
  ext <;> simp <;> field_simp

theorem map_sub_map (T : Similarity) (p q : ℝ × ℝ) :
    T.map p - T.map q = T.scale • rotate T.rotation (p - q) := by
  rw [map, map, rotate_sub, smul_sub]
  abel

theorem spread_map (T : Similarity) (ps : List (ℝ × ℝ)) :
    spread (ps.map T.map) = T.scale * spread ps := by
  by_cases h : ps = []
  · simp [h, spread]
  · simp only [spread, List.map_map, centroid_map T h, ← List.sum_map_mul_left]
    congr 1
    refine List.map_congr_left fun p _ => ?_
    rw [Function.comp_apply, map_sub_map, norm_smul_rotate T.scale_pos.le]

end Similarity

/-! ### Pairs of points -/

/-- The pairs, with either list about its centroid. -/
def centred (ps qs : List (ℝ × ℝ)) : List ((ℝ × ℝ) × (ℝ × ℝ)) :=
  (ps.map (· - centroid ps)).zip (qs.map (· - centroid qs))

def along (ps qs : List (ℝ × ℝ)) : ℝ := ((centred ps qs).map fun x => dot x.1 x.2).sum

def across (ps qs : List (ℝ × ℝ)) : ℝ := ((centred ps qs).map fun x => cross x.1 x.2).sum

/-- What is left between the images of the points and the points they should go to. -/
def residual (θ s : ℝ) (t : ℝ × ℝ) (ps qs : List (ℝ × ℝ)) : ℝ :=
  ((ps.zip qs).map fun x => norm (s • rotate θ x.1 + t - x.2) ^ 2).sum

theorem centred_eq_map (ps qs : List (ℝ × ℝ)) :
    centred ps qs = (ps.zip qs).map fun x => (x.1 - centroid ps, x.2 - centroid qs) := by
  rw [centred, List.zip_map]
  rfl

theorem sum_centred_fst {ps qs : List (ℝ × ℝ)} (hlen : ps.length = qs.length) :
    ((centred ps qs).map Prod.fst).sum = 0 := by
  rw [centred, List.map_fst_zip (by simp [hlen]), sum_sub_centroid]

theorem sum_centred_snd {ps qs : List (ℝ × ℝ)} (hlen : ps.length = qs.length) :
    ((centred ps qs).map Prod.snd).sum = 0 := by
  rw [centred, List.map_snd_zip (by simp [hlen]), sum_sub_centroid]

theorem sum_norm_fst {ps qs : List (ℝ × ℝ)} (hlen : ps.length = qs.length) :
    ((centred ps qs).map fun x => norm x.1 ^ 2).sum = inertia ps := by
  have h : (centred ps qs).map Prod.fst = ps.map (· - centroid ps) :=
    List.map_fst_zip (by simp [hlen])
  have hmap : ((centred ps qs).map fun x => norm x.1 ^ 2) =
      ((centred ps qs).map Prod.fst).map fun p => norm p ^ 2 := by
    rw [List.map_map]
    rfl
  rw [hmap, h, List.map_map]
  rfl

/-- The squares of what is left of the pairs after a turn, a scaling and a move. -/
theorem sum_residual (θ s : ℝ) (d : ℝ × ℝ) (l : List ((ℝ × ℝ) × (ℝ × ℝ))) :
    (l.map fun x => norm (s • rotate θ x.1 + d - x.2) ^ 2).sum =
      s ^ 2 * (l.map fun x => norm x.1 ^ 2).sum
        - 2 * s * (cos θ * (l.map fun x => dot x.1 x.2).sum
          + sin θ * (l.map fun x => cross x.1 x.2).sum)
        + (l.map fun x => norm x.2 ^ 2).sum
        + l.length * norm d ^ 2
        + 2 * dot d (s • rotate θ (l.map Prod.fst).sum - (l.map Prod.snd).sum) := by
  induction l with
  | nil => simp [dot, rotate]
  | cons x l ih =>
      simp only [List.map_cons, List.sum_cons, List.length_cons, Nat.cast_add, Nat.cast_one, ih]
      simp only [norm_sq, dot, cross, rotate, Prod.fst_add, Prod.snd_add, Prod.fst_sub,
        Prod.snd_sub, Prod.smul_fst, Prod.smul_snd, smul_eq_mul]
      linear_combination s ^ 2 * (x.1.1 ^ 2 + x.1.2 ^ 2) * sin_sq_add_cos_sq θ

theorem residual_eq {ps qs : List (ℝ × ℝ)} (hlen : ps.length = qs.length) (θ s : ℝ) (t : ℝ × ℝ) :
    residual θ s t ps qs =
      s ^ 2 * inertia ps - 2 * s * (cos θ * along ps qs + sin θ * across ps qs)
        + ((centred ps qs).map fun x => norm x.2 ^ 2).sum
        + (ps.length : ℝ) * norm (t - (centroid qs - s • rotate θ (centroid ps))) ^ 2 := by
  have hmove : residual θ s t ps qs =
      ((centred ps qs).map fun x => norm (s • rotate θ x.1
        + (t - (centroid qs - s • rotate θ (centroid ps))) - x.2) ^ 2).sum := by
    rw [residual, centred_eq_map, List.map_map]
    congr 1
    refine List.map_congr_left fun x _ => ?_
    simp only [Function.comp_apply, rotate_sub, smul_sub]
    congr 2
    abel
  have hcount : (centred ps qs).length = ps.length := by simp [centred, hlen]
  rw [hmove, sum_residual, sum_norm_fst hlen, sum_centred_fst hlen, sum_centred_snd hlen, hcount,
    along, across]
  simp [dot, rotate]

/-- For a given rotation, the least squares: the centroids are matched, and the scale is the
quotient of the moments. -/
theorem residual_least_iff {ps qs : List (ℝ × ℝ)} (hlen : ps.length = qs.length)
    (hps : Scattered ps) (θ s : ℝ) (t : ℝ × ℝ) :
    (∀ s' t', residual θ s t ps qs ≤ residual θ s' t' ps qs) ↔
      t = centroid qs - s • rotate θ (centroid ps) ∧
        s * inertia ps = cos θ * along ps qs + sin θ * across ps qs := by
  have hP := inertia_pos hps
  have hn : 0 < (ps.length : ℝ) := by simpa [List.length_pos_iff] using hps.ne_nil
  simp only [residual_eq hlen]
  constructor
  · intro h
    obtain ⟨k, hk⟩ : ∃ k, k * inertia ps = cos θ * along ps qs + sin θ * across ps qs :=
      ⟨_, div_mul_cancel₀ _ hP.ne'⟩
    -- nothing is gained by going over to `k` and the centroids, so both squares vanish
    have hmin := h k (centroid qs - k • rotate θ (centroid ps))
    rw [sub_self, norm_eq_zero.mpr rfl, ← hk] at hmin
    have hsq := sq_nonneg (s - k)
    have hd := sq_nonneg (norm (t - (centroid qs - s • rotate θ (centroid ps))))
    have hs : inertia ps * (s - k) ^ 2 = 0 := by nlinarith
    have ht : (ps.length : ℝ) * norm (t - (centroid qs - s • rotate θ (centroid ps))) ^ 2 = 0 := by
      nlinarith
    constructor
    · simpa [hn.ne', sub_eq_zero] using ht
    · have hsk : s = k := by simpa [hP.ne', sub_eq_zero] using hs
      rw [hsk, hk]
  · rintro ⟨rfl, hs⟩ s' t'
    rw [sub_self, norm_eq_zero.mpr rfl, ← hs]
    have hsq := mul_nonneg hP.le (sq_nonneg (s' - s))
    have hd := mul_nonneg hn.le
      (sq_nonneg (norm (t' - (centroid qs - s' • rotate θ (centroid ps)))))
    nlinarith

/-- The product `q pᵀ`. -/
def outer (q p : ℝ × ℝ) : Matrix (Fin 2) (Fin 2) ℝ :=
  !![q.1 * p.1, q.1 * p.2; q.2 * p.1, q.2 * p.2]

/-- The sum of the products `q pᵀ`. -/
def covariance (ps qs : List (ℝ × ℝ)) : Matrix (Fin 2) (Fin 2) ℝ :=
  ((centred ps qs).map fun x => outer x.2 x.1).sum

theorem outer_trace (q p : ℝ × ℝ) : outer q p 0 0 + outer q p 1 1 = dot p q := by
  simp [outer, dot, mul_comm]

theorem outer_skew (q p : ℝ × ℝ) : outer q p 1 0 - outer q p 0 1 = cross p q := by
  simp [outer, cross, mul_comm]

theorem covariance_trace (ps qs : List (ℝ × ℝ)) :
    covariance ps qs 0 0 + covariance ps qs 1 1 = along ps qs := by
  rw [covariance, along]
  induction centred ps qs with
  | nil => simp
  | cons x l ih =>
      simp only [List.map_cons, List.sum_cons, Matrix.add_apply]
      linear_combination ih + outer_trace x.2 x.1

theorem covariance_skew (ps qs : List (ℝ × ℝ)) :
    covariance ps qs 1 0 - covariance ps qs 0 1 = across ps qs := by
  rw [covariance, across]
  induction centred ps qs with
  | nil => simp
  | cons x l ih =>
      simp only [List.map_cons, List.sum_cons, Matrix.add_apply]
      linear_combination ih + outer_skew x.2 x.1

theorem centred_map (T : Similarity) {ps : List (ℝ × ℝ)} (h : ps ≠ []) :
    centred ps (ps.map T.map) =
      ps.map fun p => (p - centroid ps, T.scale • rotate T.rotation (p - centroid ps)) := by
  rw [centred, T.centroid_map h, List.map_map, List.zip_map']
  refine List.map_congr_left fun p _ => ?_
  rw [Function.comp_apply, T.map_sub_map]

theorem along_map (T : Similarity) {ps : List (ℝ × ℝ)} (h : ps ≠ []) :
    along ps (ps.map T.map) = T.scale * inertia ps * cos T.rotation := by
  rw [along, centred_map T h, inertia, ← List.sum_map_mul_left, ← List.sum_map_mul_right,
    List.map_map]
  congr 1
  refine List.map_congr_left fun p _ => ?_
  simp only [Function.comp_apply, norm_sq, dot, rotate, Prod.smul_fst, Prod.smul_snd, smul_eq_mul]
  ring

theorem across_map (T : Similarity) {ps : List (ℝ × ℝ)} (h : ps ≠ []) :
    across ps (ps.map T.map) = T.scale * inertia ps * sin T.rotation := by
  rw [across, centred_map T h, inertia, ← List.sum_map_mul_left, ← List.sum_map_mul_right,
    List.map_map]
  congr 1
  refine List.map_congr_left fun p _ => ?_
  simp only [Function.comp_apply, norm_sq, dot, cross, rotate, Prod.smul_fst, Prod.smul_snd,
    smul_eq_mul]
  ring

/-! ### The rotation of a singular value decomposition -/

/-- `H = U diag(σ) Vᵀ`, with `U` and `V` orthogonal and the entries of `σ` falling to zero. -/
structure IsSvd (H U V : Matrix (Fin 2) (Fin 2) ℝ) (σ : Fin 2 → ℝ) : Prop where
  orthogonal_left : Uᵀ * U = 1
  orthogonal_right : Vᵀ * V = 1
  nonneg : 0 ≤ σ 1
  decreasing : σ 1 ≤ σ 0
  factors : H = U * diagonal σ * Vᵀ

theorem isSvd_diagonal {σ : Fin 2 → ℝ} (hnonneg : 0 ≤ σ 1) (hdecreasing : σ 1 ≤ σ 0) :
    IsSvd (diagonal σ) 1 1 σ where
  orthogonal_left := by simp
  orthogonal_right := by simp
  nonneg := hnonneg
  decreasing := hdecreasing
  factors := by simp

/-- `U Vᵀ`, with the second column of `U` turned round where that product is a reflection. -/
def nearestRotation (U V : Matrix (Fin 2) (Fin 2) ℝ) : Matrix (Fin 2) (Fin 2) ℝ :=
  let R := U * Vᵀ
  if R.det < 0 then U.updateCol 1 (fun i => -U i 1) * Vᵀ else R

/-- The second column of an orthogonal matrix is the first one turned by a right angle, or the
opposite of that. -/
theorem orthogonal_columns {U : Matrix (Fin 2) (Fin 2) ℝ} (h : Uᵀ * U = 1) :
    U 0 0 ^ 2 + U 1 0 ^ 2 = 1 ∧
      ∃ ε : ℝ, (ε = 1 ∨ ε = -1) ∧ U 0 1 = -ε * U 1 0 ∧ U 1 1 = ε * U 0 0 := by
  have h₀₀ : U 0 0 * U 0 0 + U 1 0 * U 1 0 = 1 := by
    simpa [mul_apply, Fin.sum_univ_two] using congrFun (congrFun h 0) 0
  have h₀₁ : U 0 0 * U 0 1 + U 1 0 * U 1 1 = 0 := by
    simpa [mul_apply, Fin.sum_univ_two] using congrFun (congrFun h 0) 1
  have h₁₁ : U 0 1 * U 0 1 + U 1 1 * U 1 1 = 1 := by
    simpa [mul_apply, Fin.sum_univ_two] using congrFun (congrFun h 1) 1
  refine ⟨by linear_combination h₀₀, U 0 0 * U 1 1 - U 0 1 * U 1 0, ?_, ?_, ?_⟩
  · refine mul_self_eq_one_iff.mp ?_
    linear_combination (U 0 1 ^ 2 + U 1 1 ^ 2) * h₀₀ + h₁₁ -
      (U 0 0 * U 0 1 + U 1 0 * U 1 1) * h₀₁
  · linear_combination U 0 0 * h₀₁ - U 0 1 * h₀₀
  · linear_combination U 1 0 * h₀₁ - U 1 1 * h₀₀

/-- The product is a rotation, when both second columns are turned the same way. -/
theorem mul_transpose_of_columns {U V : Matrix (Fin 2) (Fin 2) ℝ} {ε δ : ℝ} (hεδ : ε * δ = 1)
    (hu₀ : U 0 1 = -ε * U 1 0) (hu₁ : U 1 1 = ε * U 0 0) (hv₀ : V 0 1 = -δ * V 1 0)
    (hv₁ : V 1 1 = δ * V 0 0) :
    U * Vᵀ =
      !![U 0 0 * V 0 0 + U 1 0 * V 1 0, -(U 1 0 * V 0 0 - U 0 0 * V 1 0);
        U 1 0 * V 0 0 - U 0 0 * V 1 0, U 0 0 * V 0 0 + U 1 0 * V 1 0] := by
  rw [← Matrix.ext_iff, Fin.forall_fin_two, Fin.forall_fin_two, Fin.forall_fin_two]
  simp only [mul_apply, Fin.sum_univ_two, transpose_apply, hu₀, hu₁, hv₀, hv₁, of_apply, cons_val',
    cons_val_zero, cons_val_one, cons_val_fin_one]
  refine ⟨⟨?_, ?_⟩, ?_, ?_⟩
  · linear_combination U 1 0 * V 1 0 * hεδ
  · linear_combination -U 1 0 * V 0 0 * hεδ
  · linear_combination -U 0 0 * V 1 0 * hεδ
  · linear_combination U 0 0 * V 0 0 * hεδ

/-- Whichever decomposition is taken, the rotation is by the angle of the trace and the skew part
of `H`. -/
theorem nearestRotation_spec {H U V : Matrix (Fin 2) (Fin 2) ℝ} {σ : Fin 2 → ℝ}
    (h : IsSvd H U V σ) :
    ∃ c s τ, nearestRotation U V = !![c, -s; s, c] ∧ c ^ 2 + s ^ 2 = 1 ∧ 0 ≤ τ ∧
      H 0 0 + H 1 1 = τ * c ∧ H 1 0 - H 0 1 = τ * s := by
  obtain ⟨hu, ε, hε, hu₀, hu₁⟩ := orthogonal_columns h.orthogonal_left
  obtain ⟨hv, δ, hδ, hv₀, hv₁⟩ := orthogonal_columns h.orthogonal_right
  have hεδ : ε * δ = 1 ∨ ε * δ = -1 := by
    rcases hε with rfl | rfl <;> rcases hδ with rfl | rfl <;> simp
  have hH : ∀ i j, H i j = U i 0 * σ 0 * V j 0 + U i 1 * σ 1 * V j 1 := by
    intro i j
    simp [h.factors, mul_apply, diagonal_apply, Fin.sum_univ_two]
  have hdet : (U * Vᵀ).det = ε * δ := by
    simp only [det_mul, det_transpose, det_fin_two, hu₀, hu₁, hv₀, hv₁]
    linear_combination ε * δ * (U 0 0 ^ 2 + U 1 0 ^ 2) * hv + ε * δ * hu
  -- the lesser singular value counts negatively where `U Vᵀ` is a reflection
  refine ⟨U 0 0 * V 0 0 + U 1 0 * V 1 0, U 1 0 * V 0 0 - U 0 0 * V 1 0, σ 0 + ε * δ * σ 1, ?_, ?_,
    ?_, ?_, ?_⟩
  · rw [nearestRotation, hdet]
    rcases hεδ with hpos | hneg
    · rw [if_neg (by rw [hpos]; norm_num)]
      exact mul_transpose_of_columns hpos hu₀ hu₁ hv₀ hv₁
    · rw [if_pos (by rw [hneg]; norm_num)]
      -- turned round, the second column of `U` goes the same way as that of `V`
      have hflip : -ε * δ = 1 := by linear_combination -hneg
      rw [mul_transpose_of_columns hflip (by simp [hu₀]) (by simp [hu₁]) hv₀ hv₁]
      simp
  · linear_combination (U 0 0 ^ 2 + U 1 0 ^ 2) * hv + hu
  · rcases hεδ with hpos | hneg
    · rw [hpos]
      linarith [h.nonneg, h.decreasing]
    · rw [hneg]
      linarith [h.nonneg, h.decreasing]
  · simp only [hH, hu₀, hu₁, hv₀, hv₁]
    ring
  · simp only [hH, hu₀, hu₁, hv₀, hv₁]
    ring

/-- A matrix, applied to a vector. -/
def apply (R : Matrix (Fin 2) (Fin 2) ℝ) (p : ℝ × ℝ) : ℝ × ℝ :=
  (R 0 0 * p.1 + R 0 1 * p.2, R 1 0 * p.1 + R 1 1 * p.2)

/-- The angle of the vector `(x, y)`. -/
def atan2 (y x : ℝ) : ℝ := Complex.arg ⟨x, y⟩

/-- The angle a rotation matrix turns by. -/
def angle (R : Matrix (Fin 2) (Fin 2) ℝ) : ℝ := atan2 (R 1 0) (R 0 0)

theorem norm_mk_of_unit {c s : ℝ} (h : c ^ 2 + s ^ 2 = 1) : ‖(⟨c, s⟩ : ℂ)‖ = 1 := by
  rw [Complex.norm_def, Complex.normSq_mk, ← sq, ← sq, h, sqrt_one]

theorem cos_atan2 {c s : ℝ} (h : c ^ 2 + s ^ 2 = 1) : cos (atan2 s c) = c := by
  have hnorm := norm_mk_of_unit h
  have hne : (⟨c, s⟩ : ℂ) ≠ 0 := by
    rw [← norm_ne_zero_iff, hnorm]
    exact one_ne_zero
  rw [atan2, Complex.cos_arg hne, hnorm, div_one]

theorem sin_atan2 {c s : ℝ} (h : c ^ 2 + s ^ 2 = 1) : sin (atan2 s c) = s := by
  rw [atan2, Complex.sin_arg, norm_mk_of_unit h, div_one]

/-- The rotation a decomposition of the covariance yields turns along the moments of the pairs. -/
theorem nearestRotation_covariance {ps qs : List (ℝ × ℝ)} {U V : Matrix (Fin 2) (Fin 2) ℝ}
    {σ : Fin 2 → ℝ} (h : IsSvd (covariance ps qs) U V σ) :
    ∃ θ, angle (nearestRotation U V) = θ ∧
      (∀ p, apply (nearestRotation U V) p = rotate θ p) ∧
      ∃ τ, 0 ≤ τ ∧ along ps qs = τ * cos θ ∧ across ps qs = τ * sin θ := by
  obtain ⟨c, s, τ, hR, hcs, hτ, hc, hs⟩ := nearestRotation_spec h
  refine ⟨atan2 s c, by simp [angle, hR], ?_, τ, hτ, ?_, ?_⟩
  · intro p
    simp [apply, hR, rotate, cos_atan2 hcs, sin_atan2 hcs, sub_eq_add_neg]
  · rw [cos_atan2 hcs, ← hc, covariance_trace]
  · rw [sin_atan2 hcs, ← hs, covariance_skew]

end Plane

end
