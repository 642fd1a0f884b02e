import EgbFleet.Frames.Conversion
import EgbFleet.Support.Procrustes

/-!
# Frames — estimating a transform

`estimate_transformation` finds the transform of a level from pairs of reference points, one in RMF
and one in the robot's coordinates.  The rotation comes from a singular value decomposition of their
covariance, which Eigen computes: it is a parameter here, and `JacobiSVD.Decomposes` is what the
code relies on of it.

* Points that one similarity relates give that similarity (`estimate_of_similar`).
* Other points do not give the least squares, since the scale is a ratio of distances
  (`estimate_least_squares_iff`).
-/

noncomputable section

namespace EgbFleet.Frames

open Real Plane

/-- `Eigen::JacobiSVD<Eigen::Matrix2d>`, computed with the full `U` and `V`. -/
structure JacobiSVD where
  matrixU : Matrix (Fin 2) (Fin 2) ℝ
  matrixV : Matrix (Fin 2) (Fin 2) ℝ
  singularValues : Fin 2 → ℝ

/-- It is a singular value decomposition of `H`. -/
def JacobiSVD.Decomposes (svd : JacobiSVD) (H : Matrix (Fin 2) (Fin 2) ℝ) : Prop :=
  IsSvd H svd.matrixU svd.matrixV svd.singularValues

theorem JacobiSVD.Decomposes.diagonal {σ : Fin 2 → ℝ} {H : Matrix (Fin 2) (Fin 2) ℝ}
    (hH : H = Matrix.diagonal σ) (hnonneg : 0 ≤ σ 1) (hdecreasing : σ 1 ≤ σ 0) :
    (⟨1, 1, σ⟩ : JacobiSVD).Decomposes H := by
  subst hH
  exact isSvd_diagonal hnonneg hdecreasing

/-- What the constructor of `Transformation` is passed; `none` for what a division by zero leaves
undefined. -/
structure Estimate where
  rotation : ℝ
  scale : Option ℝ
  translation : Option (ℝ × ℝ)

/-- A quotient, if there is one. -/
def quotient (a b : ℝ) : Option ℝ := if b = 0 then none else some (a / b)

/-- `estimate_transformation`, with the decomposition Eigen computes of a matrix. -/
def estimateTransformation (jacobiSVD : Matrix (Fin 2) (Fin 2) ℝ → JacobiSVD)
    (rmfCoords robotCoords : List (ℝ × ℝ)) : Except String Estimate :=
  if rmfCoords.length ≠ robotCoords.length ∨ rmfCoords.isEmpty then
    .error "Coordinate arrays must be non-empty and same size"
  else
    match rmfCoords, robotCoords with
    | [rmfPt], [robotPt] => .ok ⟨0, some 1, some (robotPt - rmfPt)⟩
    | _, _ =>
        let rmfCentroid := centroid rmfCoords
        let robotCentroid := centroid robotCoords
        let H := ((rmfCoords.zip robotCoords).map fun (rmfPt, robotPt) =>
          outer (robotPt - robotCentroid) (rmfPt - rmfCentroid)).sum
        let svd := jacobiSVD H
        let R := nearestRotation svd.matrixU svd.matrixV
        let rotation := Plane.angle R
        let rmfScale := (rmfCoords.map fun rmfPt => Plane.norm (rmfPt - rmfCentroid)).sum
        let robotScale := (robotCoords.map fun robotPt => Plane.norm (robotPt - robotCentroid)).sum
        let scale := quotient robotScale rmfScale
        let translation := scale.map fun scale =>
          robotCentroid - scale • Plane.apply R rmfCentroid
        .ok ⟨rotation, scale, translation⟩

/-! ### Several points -/

/-- From two pairs on, by the moments of the pairs. -/
theorem estimate_of_length {jacobiSVD : Matrix (Fin 2) (Fin 2) ℝ → JacobiSVD}
    {rmfCoords robotCoords : List (ℝ × ℝ)} (hlen : rmfCoords.length = robotCoords.length)
    (htwo : 2 ≤ rmfCoords.length) :
    estimateTransformation jacobiSVD rmfCoords robotCoords =
      let svd := jacobiSVD (covariance rmfCoords robotCoords)
      let R := nearestRotation svd.matrixU svd.matrixV
      let scale := quotient (spread robotCoords) (spread rmfCoords)
      .ok ⟨Plane.angle R, scale, scale.map fun scale =>
        centroid robotCoords - scale • Plane.apply R (centroid rmfCoords)⟩ := by
  have hguard : ¬ (rmfCoords.length ≠ robotCoords.length ∨ rmfCoords.isEmpty = true) := by
    rw [List.isEmpty_iff_length_eq_zero]
    omega
  unfold estimateTransformation
  rw [if_neg hguard]
  split
  · simp at htwo
  · rw [covariance, centred_eq_map, List.map_map]
    rfl

/-- The estimate of points two of which are apart in RMF coordinates: the rotation is along the
moments, whichever decomposition Eigen finds. -/
theorem estimate_of_scattered (jacobiSVD : Matrix (Fin 2) (Fin 2) ℝ → JacobiSVD)
    {rmfCoords robotCoords : List (ℝ × ℝ)} (hlen : rmfCoords.length = robotCoords.length)
    (hrmf : Scattered rmfCoords)
    (hsvd : (jacobiSVD (covariance rmfCoords robotCoords)).Decomposes
      (covariance rmfCoords robotCoords)) :
    ∃ θ k, k = spread robotCoords / spread rmfCoords ∧
      estimateTransformation jacobiSVD rmfCoords robotCoords =
        .ok ⟨θ, some k, some (centroid robotCoords - k • rotate θ (centroid rmfCoords))⟩ ∧
      ∃ τ, 0 ≤ τ ∧ along rmfCoords robotCoords = τ * cos θ ∧
        across rmfCoords robotCoords = τ * sin θ := by
  obtain ⟨θ, hθ, hrotate, hτ⟩ := nearestRotation_covariance hsvd
  refine ⟨θ, _, rfl, ?_, hτ⟩
  have hpos : spread rmfCoords ≠ 0 := (spread_pos_iff.mpr hrmf).ne'
  simp [estimate_of_length hlen hrmf.two_le, quotient, hpos, hθ, hrotate]

/-! ### Points that a similarity relates -/

/-- Points related by one rotation, scale and translation give that rotation, scale and
translation. -/
theorem estimate_of_similar (jacobiSVD : Matrix (Fin 2) (Fin 2) ℝ → JacobiSVD) (T : Transformation)
    (rmfCoords : List (ℝ × ℝ)) (hrmf : Scattered rmfCoords)
    (hsvd : (jacobiSVD (covariance rmfCoords (rmfCoords.map T.map))).Decomposes
      (covariance rmfCoords (rmfCoords.map T.map))) :
    ∃ θ, estimateTransformation jacobiSVD rmfCoords (rmfCoords.map T.map) =
        .ok ⟨θ, some T.scale, some T.translation⟩ ∧
      (θ : Angle) = T.rotation := by
  obtain ⟨θ, k, hk, hestimate, τ, hτ, halong, hacross⟩ :=
    estimate_of_scattered jacobiSVD (List.length_map _).symm hrmf hsvd
  rw [along_map T hrmf.ne_nil] at halong
  rw [across_map T hrmf.ne_nil] at hacross
  have hI : 0 < T.scale * inertia rmfCoords := mul_pos T.scale_pos (inertia_pos hrmf)
  -- both moments are the same multiple of the cosine and the sine
  have hsq : (T.scale * inertia rmfCoords) ^ 2 = τ ^ 2 := by
    linear_combination (T.scale * inertia rmfCoords * cos T.rotation + τ * cos θ) * halong
      + (T.scale * inertia rmfCoords * sin T.rotation + τ * sin θ) * hacross
      - (T.scale * inertia rmfCoords) ^ 2 * sin_sq_add_cos_sq T.rotation
      + τ ^ 2 * sin_sq_add_cos_sq θ
  have hτI : T.scale * inertia rmfCoords = τ := (sq_eq_sq₀ hI.le hτ).mp hsq
  rw [← hτI] at halong hacross
  have hcos : cos T.rotation = cos θ := mul_left_cancel₀ hI.ne' halong
  have hsin : sin T.rotation = sin θ := mul_left_cancel₀ hI.ne' hacross
  have hscale : k = T.scale := by
    rw [hk, T.spread_map, mul_div_cancel_right₀ _ (spread_pos_iff.mpr hrmf).ne']
  refine ⟨θ, ?_, Angle.cos_sin_inj hcos.symm hsin.symm⟩
  rw [hestimate, hscale, T.centroid_map hrmf.ne_nil, Similarity.map]
  simp [rotate, hcos, hsin]

/-- Points of whole coordinates. -/
def wholePoints (ps : List (ℤ × ℤ)) : List (ℝ × ℝ) := ps.map fun p => (p.1, p.2)

/-- The ends of two bars across one another. -/
def bars : List (ℝ × ℝ) := wholePoints [(2, 0), (-2, 0), (0, 1), (0, -1)]

/-- The bars, turned by a right angle, made twice as long, and shifted. -/
def turnedBars : List (ℝ × ℝ) := wholePoints [(3, 5), (3, -3), (1, 1), (5, 1)]

def quarterTurn : Transformation where
  rotation := π / (2 : ℕ)
  scale := (2 : ℕ)
  translation := ((3 : ℕ), (1 : ℕ))
  scale_pos := by norm_num

theorem bars_eq : bars = [(2, 0), (-2, 0), (0, 1), (0, -1)] := by
  simp [bars, wholePoints]

theorem turnedBars_eq : turnedBars = [(3, 5), (3, -3), (1, 1), (5, 1)] := by
  simp [turnedBars, wholePoints]

theorem map_quarterTurn : bars.map quarterTurn.map = turnedBars := by
  norm_num [bars_eq, turnedBars_eq, quarterTurn, Similarity.map, rotate]

theorem scattered_bars : Scattered bars := by
  rw [bars_eq]
  exact ⟨(2, 0), by simp, (-2, 0), by simp, by norm_num⟩

theorem centroid_bars : centroid bars = (0, 0) := by norm_num [bars_eq, centroid]

theorem centroid_turnedBars : centroid turnedBars = (3, 1) := by
  norm_num [turnedBars_eq, centroid]

theorem centred_bars : centred bars turnedBars =
    [((2, 0), (0, 4)), ((-2, 0), (0, -4)), ((0, 1), (-2, 0)), ((0, -1), (2, 0))] := by
  rw [centred, centroid_bars, centroid_turnedBars]
  norm_num [bars_eq, turnedBars_eq]

/-- A decomposition of the covariance of the bars and the turned ones. -/
def barsSVD : JacobiSVD := ⟨!![0, -1; 1, 0], 1, ![16, 4]⟩

theorem decomposes_bars : barsSVD.Decomposes (covariance bars turnedBars) where
  orthogonal_left := by
    ext i j
    fin_cases i <;> fin_cases j <;> simp [barsSVD, Matrix.mul_apply, Fin.sum_univ_two]
  orthogonal_right := by simp [barsSVD]
  nonneg := by norm_num [barsSVD]
  decreasing := by norm_num [barsSVD]
  factors := by
    rw [covariance, centred_bars]
    ext i j
    fin_cases i <;> fin_cases j <;> norm_num [barsSVD, outer, Matrix.vecMul_diagonal]

/-- The estimate is a right angle, a scale of 2, and the shift. -/
theorem estimate_of_similar_quarterTurn :
    ∃ θ, estimateTransformation (fun _ => barsSVD) bars (bars.map quarterTurn.map) =
        .ok ⟨θ, some quarterTurn.scale, some quarterTurn.translation⟩ ∧
      (θ : Angle) = quarterTurn.rotation := by
  refine estimate_of_similar (fun _ => barsSVD) quarterTurn bars scattered_bars ?_
  rw [map_quarterTurn]
  exact decomposes_bars

/-! ### Points that no similarity relates -/

/-- The scale and the translation leave the least sum of squares, for this rotation. -/
def Estimate.LeastSquares (e : Estimate) (rmfCoords robotCoords : List (ℝ × ℝ)) : Prop :=
  ∃ s t, e.scale = some s ∧ e.translation = some t ∧
    ∀ s' t', residual e.rotation s t rmfCoords robotCoords ≤
      residual e.rotation s' t' rmfCoords robotCoords

/-- With the centroids matched, only the scale is left to be right. -/
theorem leastSquares_iff {rmfCoords robotCoords : List (ℝ × ℝ)} {θ k τ : ℝ}
    (hlen : rmfCoords.length = robotCoords.length) (hrmf : Scattered rmfCoords)
    (halong : along rmfCoords robotCoords = τ * cos θ)
    (hacross : across rmfCoords robotCoords = τ * sin θ) :
    (⟨θ, some k, some (centroid robotCoords - k • rotate θ (centroid rmfCoords))⟩ :
        Estimate).LeastSquares rmfCoords robotCoords ↔
      k * inertia rmfCoords = τ := by
  have hmoment : cos θ * along rmfCoords robotCoords + sin θ * across rmfCoords robotCoords =
      τ := by
    rw [halong, hacross]
    linear_combination τ * sin_sq_add_cos_sq θ
  have hiff := residual_least_iff hlen hrmf θ k
    (centroid robotCoords - k • rotate θ (centroid rmfCoords))
  rw [hmoment] at hiff
  constructor
  · rintro ⟨_, _, ⟨⟩, ⟨⟩, hleast⟩
    exact (hiff.mp hleast).2
  · intro h
    exact ⟨_, _, rfl, rfl, hiff.mpr ⟨rfl, h⟩⟩

/-- The length of the moments, of pairs whose moments are at an angle. -/
theorem sqrt_moments {ps qs : List (ℝ × ℝ)} {θ τ : ℝ} (hτ : 0 ≤ τ)
    (halong : along ps qs = τ * cos θ) (hacross : across ps qs = τ * sin θ) :
    √(along ps qs ^ 2 + across ps qs ^ 2) = τ := by
  have hsq : along ps qs ^ 2 + across ps qs ^ 2 = τ ^ 2 := by
    rw [halong, hacross]
    linear_combination τ ^ 2 * sin_sq_add_cos_sq θ
  rw [hsq, sqrt_sq hτ]

/-- The estimate is the least-squares one exactly for the points whose ratio of distances is the
least-squares scale. -/
theorem estimate_least_squares_iff (jacobiSVD : Matrix (Fin 2) (Fin 2) ℝ → JacobiSVD)
    (rmfCoords robotCoords : List (ℝ × ℝ)) (hlen : rmfCoords.length = robotCoords.length)
    (hrmf : Scattered rmfCoords)
    (hsvd : (jacobiSVD (covariance rmfCoords robotCoords)).Decomposes
      (covariance rmfCoords robotCoords)) :
    ∃ e, estimateTransformation jacobiSVD rmfCoords robotCoords = .ok e ∧
      (e.LeastSquares rmfCoords robotCoords ↔
        spread robotCoords * inertia rmfCoords =
          spread rmfCoords *
            √(along rmfCoords robotCoords ^ 2 + across rmfCoords robotCoords ^ 2)) := by
  obtain ⟨θ, k, hk, hestimate, τ, hτ, halong, hacross⟩ :=
    estimate_of_scattered jacobiSVD hlen hrmf hsvd
  refine ⟨_, hestimate, ?_⟩
  have hspread : spread rmfCoords ≠ 0 := (spread_pos_iff.mpr hrmf).ne'
  rw [leastSquares_iff hlen hrmf halong hacross, sqrt_moments hτ halong hacross, hk,
    div_mul_eq_mul_div, div_eq_iff hspread, mul_comm τ]

/-- The turned bars leave no residual. -/
theorem estimate_least_squares_quarterTurn :
    ∃ e, estimateTransformation (fun _ => barsSVD) bars turnedBars = .ok e ∧
      e.LeastSquares bars turnedBars := by
  obtain ⟨e, he, hiff⟩ := estimate_least_squares_iff (fun _ => barsSVD) bars turnedBars rfl
    scattered_bars decomposes_bars
  refine ⟨e, he, hiff.mpr ?_⟩
  have hfour : √(4 : ℝ) = 2 := (sqrt_eq_iff_mul_self_eq_of_pos two_pos).mpr (by norm_num)
  have hsixteen : √(16 : ℝ) = 4 := (sqrt_eq_iff_mul_self_eq_of_pos four_pos).mpr (by norm_num)
  have hspread : spread bars = 6 := by
    rw [spread, centroid_bars]
    norm_num [bars_eq, Plane.norm, hfour]
  have hspread' : spread turnedBars = 12 := by
    rw [spread, centroid_turnedBars]
    norm_num [turnedBars_eq, Plane.norm, hfour, hsixteen]
  have hinertia : inertia bars = 10 := by
    rw [inertia, centroid_bars]
    norm_num [bars_eq, Plane.norm]
  have halong : along bars turnedBars = 0 := by
    rw [along, centred_bars]
    norm_num [dot]
  have hacross : across bars turnedBars = 20 := by
    rw [across, centred_bars]
    norm_num [cross]
  rw [hspread, hspread', hinertia, halong, hacross, zero_pow two_ne_zero, zero_add,
    sqrt_sq (by norm_num)]
  norm_num

/-- Three points in a line, the middle one measured where the first is: the scale is 2, and the
sum of squares is least at 3/2. -/
theorem middle_point_off :
    let rmfCoords : List (ℝ × ℝ) := [(0, 0), (1, 0), (2, 0)]
    let robotCoords : List (ℝ × ℝ) := [(0, 0), (0, 0), (3, 0)]
    let svd : JacobiSVD := ⟨1, 1, ![3, 0]⟩
    Scattered rmfCoords ∧ svd.Decomposes (covariance rmfCoords robotCoords) ∧
      ∃ e, estimateTransformation (fun _ => svd) rmfCoords robotCoords = .ok e ∧
        ¬ e.LeastSquares rmfCoords robotCoords := by
  intro rmfCoords robotCoords svd
  have hlen : rmfCoords.length = robotCoords.length := rfl
  have hrmf : Scattered rmfCoords :=
    ⟨(0, 0), by simp [rmfCoords], (1, 0), by simp [rmfCoords], by simp⟩
  have hsvd : svd.Decomposes (covariance rmfCoords robotCoords) := by
    refine .diagonal ?_ (by simp) (by simp)
    ext i j
    fin_cases i <;> fin_cases j <;>
      norm_num [rmfCoords, robotCoords, covariance, centred, centroid, outer,
        Matrix.diagonal_apply]
  refine ⟨hrmf, hsvd, ?_⟩
  obtain ⟨θ, k, hk, hestimate, τ, hτ, halong, hacross⟩ :=
    estimate_of_scattered (fun _ => svd) hlen hrmf hsvd
  refine ⟨_, hestimate, fun hleast => ?_⟩
  rw [leastSquares_iff hlen hrmf halong hacross, ← sqrt_moments hτ halong hacross] at hleast
  have hscale : k = 2 := by
    have hfour : √(4 : ℝ) = 2 := by rw [sqrt_eq_iff_mul_self_eq_of_pos two_pos]; norm_num
    rw [hk]
    norm_num [rmfCoords, robotCoords, spread, centroid, Plane.norm, hfour]
  have hroot : √(along rmfCoords robotCoords ^ 2 + across rmfCoords robotCoords ^ 2) = 3 := by
    have hnine : √(9 : ℝ) = 3 := by rw [sqrt_eq_iff_mul_self_eq_of_pos three_pos]; norm_num
    norm_num [rmfCoords, robotCoords, along, across, centred, centroid, dot, cross, hnine]
  have hinertia : inertia rmfCoords = 2 := by
    norm_num [rmfCoords, inertia, centroid, Plane.norm]
  rw [hscale, hroot, hinertia] at hleast
  norm_num at hleast

end EgbFleet.Frames

end
