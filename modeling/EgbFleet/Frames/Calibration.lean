import EgbFleet.Frames.Agreement
import EgbFleet.Frames.Reference
import EgbFleet.Support.Headings

/-!
# Frames — from reference points to positions

`initialize_fleet` has `parse_transformations` estimate a transform for each level; `RobotState`
takes a robot's pose through that of its level to RMF, and `PathHandle` RMF's positions through the
first to the robot.

`calibration_exact`: where the reference points stored for each level are exact, related by one
rotation, scale and translation, and tell these apart from others (`Pins`), a robot is reported
where it is, and sent where the first level has the position.
-/

noncomputable section

namespace EgbFleet.Frames

open Real Plane

/-! ### The estimate of exact points -/

/-- These RMF points tell the transform apart from others: two of them are apart, or there is only
one, and the transform a translation, as `estimate_transformation` takes it to be. -/
def Pins (rmfCoords : List (ℝ × ℝ)) (T : Transformation) : Prop :=
  Scattered rmfCoords ∨ rmfCoords.length = 1 ∧ (T.rotation : Angle) = 0 ∧ T.scale = 1

/-- A transform that has been constructed. -/
def Estimate.ofTransformation (T : Transformation) : Estimate :=
  ⟨T.rotation, some T.scale, some T.translation⟩

theorem Estimate.ofTransformation_injective :
    Function.Injective Estimate.ofTransformation := by
  intro T T' h
  simp only [ofTransformation, Estimate.mk.injEq, Option.some.injEq] at h
  exact Similarity.ext h.1 h.2.1 h.2.2

/-- Exact points give the transform that relates them, but for full turns. -/
theorem estimate_map {jacobiSVD : Matrix (Fin 2) (Fin 2) ℝ → JacobiSVD} {T : Transformation}
    {rmfCoords : List (ℝ × ℝ)} (h : Pins rmfCoords T)
    (hsvd : (jacobiSVD (covariance rmfCoords (rmfCoords.map T.map))).Decomposes
      (covariance rmfCoords (rmfCoords.map T.map))) :
    ∃ T' : Transformation, estimateTransformation jacobiSVD rmfCoords (rmfCoords.map T.map) =
        .ok (.ofTransformation T') ∧
      (T'.rotation : Angle) = T.rotation ∧ T'.map = T.map := by
  rcases h with hrmf | ⟨hone, hrotation, hscale⟩
  · obtain ⟨θ, k, hk, hestimate, τ, hτ, halong, hacross⟩ :=
      estimate_of_scattered jacobiSVD (List.length_map T.map).symm hrmf hsvd
    rw [along_map T hrmf.ne_nil] at halong
    rw [across_map T hrmf.ne_nil] at hacross
    obtain ⟨-, hangle⟩ :=
      polar_unique (mul_pos T.scale_pos (inertia_pos hrmf)) hτ halong hacross
    have hscale : k = T.scale := by
      rw [hk, T.spread_map, mul_div_cancel_right₀ _ (spread_pos_iff.mpr hrmf).ne']
    have htranslation : centroid (rmfCoords.map T.map) - k • rotate θ (centroid rmfCoords) =
        T.translation := by
      have hcos : cos T.rotation = cos θ := congrArg Angle.cos hangle
      have hsin : sin T.rotation = sin θ := congrArg Angle.sin hangle
      rw [hscale, T.centroid_map hrmf.ne_nil, Similarity.map, sub_eq_iff_eq_add, add_comm]
      simp only [rotate, hcos, hsin]
    refine ⟨⟨θ, T.scale, T.translation, T.scale_pos⟩, ?_, hangle.symm, ?_⟩
    · rw [hestimate, htranslation, hscale]
      rfl
    · exact Similarity.map_congr hangle.symm rfl rfl
  · obtain ⟨p, rfl⟩ := List.length_eq_one_iff.mp hone
    refine ⟨⟨0, 1, T.map p - p, one_pos⟩, rfl, hrotation.symm, ?_⟩
    refine Similarity.map_congr hrotation.symm hscale.symm ?_
    have hcos : cos T.rotation = 1 := (congrArg Angle.cos hrotation).trans Angle.cos_zero
    have hsin : sin T.rotation = 0 := (congrArg Angle.sin hrotation).trans Angle.sin_zero
    simp [Similarity.map, rotate, hcos, hsin, hscale]

/-! ### The table -/

/-- The table `initialize_fleet` keeps is the one that was parsed. -/
def CoordinateTransforms.Holds (ct : CoordinateTransforms) (t : SortedTable String Estimate) :
    Prop :=
  t.entries = ct.entries.map fun e => (e.1, .ofTransformation e.2)

theorem exists_entries {entries : List (String × Estimate)}
    (h : ∀ e ∈ entries, ∃ T, e.2 = .ofTransformation T) :
    ∃ entries' : List (String × Transformation),
      entries = entries'.map fun e => (e.1, .ofTransformation e.2) := by
  induction entries with
  | nil => exact ⟨[], rfl⟩
  | cons e entries ih =>
      obtain ⟨entries', rfl⟩ := ih fun e' he' => h e' (List.mem_cons_of_mem e he')
      obtain ⟨T, hT⟩ := h e List.mem_cons_self
      exact ⟨(e.1, T) :: entries', by rw [List.map_cons, ← hT]⟩

theorem CoordinateTransforms.exists_holds {t : SortedTable String Estimate}
    (h : ∀ e ∈ t.entries, ∃ T, e.2 = .ofTransformation T) :
    ∃ ct : CoordinateTransforms, ct.Holds t := by
  obtain ⟨entries, hentries⟩ := exists_entries h
  have hsorted := t.sorted
  rw [hentries, List.pairwise_map] at hsorted
  exact ⟨⟨entries, hsorted⟩, hentries⟩

theorem lookup_map_ofTransformation (entries : List (String × Transformation)) (name : String) :
    (entries.map fun e => (e.1, Estimate.ofTransformation e.2)).lookup name =
      (entries.lookup name).map .ofTransformation := by
  induction entries with
  | nil => rfl
  | cons e entries ih =>
      obtain ⟨name', T⟩ := e
      by_cases h : name = name'
      · subst h
        simp
      · rw [List.map_cons, SortedTable.lookup_cons_of_ne h, SortedTable.lookup_cons_of_ne h, ih]

theorem CoordinateTransforms.Holds.find {ct : CoordinateTransforms}
    {t : SortedTable String Estimate} (h : ct.Holds t) (name : String) :
    t.find name = (ct.find name).map .ofTransformation := by
  rw [SortedTable.find, h]
  exact lookup_map_ofTransformation ct.entries name

/-! ### Exact reference points -/

/-- The pose TF returns for a robot that stands here, with this heading. -/
def standing (position : ℝ × ℝ) (yaw : ℝ) : RosPose :=
  ⟨position.1, position.2, 0, yawQuaternion yaw⟩

/-- A robot where a transform maps an RMF position, turned by as much, is reported there. -/
theorem rmfPose_standing {x : Externals} (hx : x.Documented) {ct : CoordinateTransforms}
    {mapName : String} {T T' : Transformation} (hfind : ct.find mapName = some T')
    (hrotation : (T'.rotation : Angle) = T.rotation) (hmap : T'.map = T.map) (p : ℝ × ℝ) (yaw : ℝ) :
    ∃ q, RobotState.rmfPose x ⟨mapName, ct, true⟩
        (some (standing (T.map p) (yaw + T.rotation))) = some q ∧
      q.position = p ∧ (q.yaw : Angle) = yaw := by
  have hpose : RobotState.rmfPose x ⟨mapName, ct, true⟩
      (some (standing (T.map p) (yaw + T.rotation))) =
        some (x.applyInverse T' ⟨T.map p, x.getYaw (yawQuaternion (yaw + T.rotation))⟩) := by
    simp only [RobotState.rmfPose, getPose, standing, Option.map_some, hfind, if_true]
  refine ⟨_, hpose, ?_⟩
  obtain ⟨hposition, hyaw⟩ := (hx.applyInverse_eq_iff (T := T')
    (q := ⟨T.map p, x.getYaw (yawQuaternion (yaw + T.rotation))⟩)).mp rfl
  refine ⟨T'.map_injective (hposition.trans (congrFun hmap p).symm), ?_⟩
  have hsum := congrArg (fun θ : ℝ => (θ : Angle)) hyaw
  dsimp only at hsum
  rw [Angle.coe_add, hrotation, hx.getYaw, Angle.coe_add] at hsum
  exact add_right_cancel hsum

/-- **Calibration.**  Where the points stored for each level are exact and pin its transform down,
the table that results reports a robot of any such level where it is, and sends it where the first
level has the position. -/
theorem calibration_exact {x : Externals} (hx : x.Documented)
    {jacobiSVD : Matrix (Fin 2) (Fin 2) ℝ → JacobiSVD}
    {levels : List (String × LevelNode)} {t : SortedTable String Estimate}
    (h : parseTransformations jacobiSVD (some levels) = .ok t) (T : String → Transformation)
    (hexact : ∀ levelName c, stored levels levelName = some c →
      c.2 = c.1.map (T levelName).map ∧ Pins c.1 (T levelName))
    (hsvd : ∀ levelName c, stored levels levelName = some c →
      (jacobiSVD (covariance c.1 c.2)).Decomposes (covariance c.1 c.2)) :
    ∃ ct : CoordinateTransforms, ct.Holds t ∧
      (∀ levelName, (stored levels levelName).isSome → ∀ p yaw,
        ∃ q, RobotState.rmfPose x ⟨levelName, ct, true⟩
            (some (standing ((T levelName).map p) (yaw + (T levelName).rotation))) = some q ∧
          q.position = p ∧ (q.yaw : Angle) = yaw) ∧
      ∀ first ∈ ct.entries.head?, ∀ p, transformPosition x ct p = (T first.1).map p := by
  -- what is found under a name is the estimate of the points stored for it
  have hfind (levelName : String) := (find_levels h levelName).trans Option.none_or
  have hestimate {levelName : String} {c : List (ℝ × ℝ) × List (ℝ × ℝ)}
      (hc : stored levels levelName = some c) :
      ∃ T' : Transformation, t.find levelName = some (.ofTransformation T') ∧
        (T'.rotation : Angle) = (T levelName).rotation ∧ T'.map = (T levelName).map := by
    obtain ⟨hmap, hpins⟩ := hexact levelName c hc
    obtain ⟨T', hok, hrotation, hmap'⟩ := estimate_map hpins (hmap ▸ hsvd levelName c hc)
    refine ⟨T', ?_, hrotation, hmap'⟩
    rw [hfind, hc, Option.bind_some, hmap, hok]
    rfl
  have hstored {levelName : String} {e : Estimate} (he : t.find levelName = some e) :
      ∃ c, stored levels levelName = some c := by
    rw [hfind, Option.bind_eq_some_iff] at he
    obtain ⟨c, hc, -⟩ := he
    exact ⟨c, hc⟩
  have hentries : ∀ e ∈ t.entries, ∃ T', e.2 = .ofTransformation T' := by
    intro e he
    have hlookup : t.find e.1 = some e.2 := SortedTable.find_of_mem he
    obtain ⟨c, hc⟩ := hstored hlookup
    obtain ⟨T', hT', -⟩ := hestimate hc
    exact ⟨T', Option.some.inj (hlookup.symm.trans hT')⟩
  obtain ⟨ct, hct⟩ := CoordinateTransforms.exists_holds hentries
  have hsame {levelName : String} {T' : Transformation} (hT' : ct.find levelName = some T') :
      (T'.rotation : Angle) = (T levelName).rotation ∧ T'.map = (T levelName).map := by
    have hlookup := (hct.find levelName).trans (congrArg (Option.map _) hT')
    obtain ⟨c, hc⟩ := hstored hlookup
    obtain ⟨T'', hT'', hrotation, hmap⟩ := hestimate hc
    obtain rfl := Estimate.ofTransformation_injective (Option.some.inj (hlookup.symm.trans hT''))
    exact ⟨hrotation, hmap⟩
  refine ⟨ct, hct, fun levelName hsome p yaw => ?_, fun first hfirst p => ?_⟩
  · obtain ⟨c, hc⟩ := Option.isSome_iff_exists.mp hsome
    obtain ⟨T', hT', -⟩ := hestimate hc
    obtain ⟨T'', hT'', -⟩ := Option.map_eq_some_iff.mp ((hct.find levelName).symm.trans hT')
    obtain ⟨hrotation, hmap⟩ := hsame hT''
    exact rmfPose_standing hx hT'' hrotation hmap p yaw
  · obtain ⟨entries, hfirst'⟩ := List.head?_eq_some_iff.mp hfirst
    have hT' : ct.find first.1 = some first.2 := by
      rw [CoordinateTransforms.find, hfirst']
      exact List.lookup_cons_self
    have htable : ct.first? = some first.2 := by
      rw [CoordinateTransforms.first?, hfirst]
      rfl
    rw [transformPosition_of_first hx htable, (hsame hT').2]

/-- A floor whose robots' coordinates are turned by a right angle, twice as long, and shifted. -/
def turnedFloor : String × LevelNode :=
  ("Floor0",
    ⟨some (bars.map fun p => [some p.1, some p.2]),
      some (turnedBars.map fun p => [some p.1, some p.2])⟩)

theorem stored_turnedFloor {levelName : String} {c : List (ℝ × ℝ) × List (ℝ × ℝ)}
    (h : stored [turnedFloor] levelName = some c) : c = (bars, turnedBars) := by
  obtain ⟨node, hnode, hc⟩ := accepted_of_stored h
  rw [List.mem_singleton] at hnode
  subst hnode
  cases hc
  rfl

theorem calibration_exact_turnedFloor :
    ∃ ct : CoordinateTransforms,
      (∀ p yaw, ∃ q, RobotState.rmfPose standard ⟨"Floor0", ct, true⟩
          (some (standing (quarterTurn.map p) (yaw + quarterTurn.rotation))) = some q ∧
        q.position = p ∧ (q.yaw : Angle) = yaw) ∧
      ∀ first ∈ ct.entries.head?, ∀ p, transformPosition standard ct p = quarterTurn.map p := by
  have hparse : parseTransformations (fun _ => barsSVD) (some [turnedFloor]) = .ok _ := rfl
  obtain ⟨ct, -, hreported, hsent⟩ := calibration_exact standard_documented hparse
    (fun _ => quarterTurn) (fun levelName c hc => by
      rw [stored_turnedFloor hc]
      exact ⟨map_quarterTurn.symm, .inl scattered_bars⟩) fun levelName c hc => by
      rw [stored_turnedFloor hc]
      exact decomposes_bars
  exact ⟨ct, hreported "Floor0" rfl, hsent⟩

end EgbFleet.Frames

end
