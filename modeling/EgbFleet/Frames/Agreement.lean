import EgbFleet.Frames.Conversion

/-!
# Frames — whether the conversions agree

A robot that stands where `waypoint_to_msg` sends it should be reported where the plan wants it
(`Agrees`).  `waypoint_to_msg` applies the table's first transform to the position and leaves the
heading; `update` inverts the transform of the robot's map, rotation included.  So they agree
exactly where the table has that transform, its rotation is a whole number of turns, and it maps
the planned position to the point the first transform maps it to (`agrees_iff`).
-/

noncomputable section

namespace EgbFleet.Frames

open Real

/-- The robot stands at the pose of the message made of the planned `p`; what `update` reports is
the planned position, with the planned heading or the one that overrides it. -/
def Agrees (x : Externals) (t : CoordinateTransforms) (mapName : String) (p : Pose) (i : Nat)
    (yawOverride : Option ℝ) : Prop :=
  ∃ q, RobotState.rmfPose x ⟨mapName, t, true⟩ (some (waypointToMsg x t p i yawOverride).pose)
      = some q ∧
    q.position = p.position ∧ (q.yaw : Angle) = (yawOverride.getD p.yaw : ℝ)

/-- The table's transform of this map turns by whole turns, and maps `p` where the table's first
transform does. -/
def Matched (t : CoordinateTransforms) (mapName : String) (p : ℝ × ℝ) : Prop :=
  ∃ T₀ T, t.first? = some T₀ ∧ t.find mapName = some T ∧ (T.rotation : Angle) = 0 ∧
    T.map p = T₀.map p

/-! ### What is sent and what is reported -/

variable {x : Externals} {t : CoordinateTransforms}

theorem transformPosition_of_first (hx : x.Documented) {T₀ : Transformation}
    (h₀ : t.first? = some T₀) (p : ℝ × ℝ) : transformPosition x t p = T₀.map p := by
  simp only [transformPosition, h₀, hx.apply]

/-- The pose of the robot that stands where the message sends it. -/
theorem getPose_waypointToMsg (p : Pose) (i : Nat) (yawOverride : Option ℝ) :
    getPose x (some (waypointToMsg x t p i yawOverride).pose) =
      some ⟨transformPosition x t p.position,
        x.getYaw (yawQuaternion (yawOverride.getD p.yaw))⟩ := rfl

theorem rmfPose_of_find {mapName : String} {T : Transformation} (hT : t.find mapName = some T)
    (p : Pose) (i : Nat) (yawOverride : Option ℝ) :
    RobotState.rmfPose x ⟨mapName, t, true⟩ (some (waypointToMsg x t p i yawOverride).pose) =
      some (x.applyInverse T ⟨transformPosition x t p.position,
        x.getYaw (yawQuaternion (yawOverride.getD p.yaw))⟩) := by
  simp only [RobotState.rmfPose, getPose_waypointToMsg, hT, if_true]

/-- Without a transform for its map the robot is not reported. -/
theorem rmfPose_of_find_none {mapName : String} (hT : t.find mapName = none)
    (transform : Option RosPose) : RobotState.rmfPose x ⟨mapName, t, true⟩ transform = none := by
  cases transform with
  | none => rfl
  | some tf => simp only [RobotState.rmfPose, getPose, Option.map_some, hT, if_true]

/-- What `apply_inverse` returns is determined by where it came from. -/
theorem Externals.Documented.applyInverse_eq_iff (hx : x.Documented) {T : Transformation}
    {p q : Pose} :
    x.applyInverse T q = p ↔ T.map p.position = q.position ∧ p.yaw + T.rotation = q.yaw := by
  constructor
  · rintro rfl
    have h := hx.apply_applyInverse T q
    rw [hx.apply] at h
    exact ⟨congrArg Pose.position h, congrArg Pose.yaw h⟩
  · rintro ⟨hpos, hyaw⟩
    have h : x.apply T p = q := by
      rw [hx.apply]
      exact Pose.ext hpos hyaw
    rw [← h, hx.applyInverse_apply]

/-! ### Agreement -/

theorem matched_of_agrees (hx : x.Documented) {mapName : String} {p : Pose} {i : Nat}
    {yawOverride : Option ℝ} (h : Agrees x t mapName p i yawOverride) :
    Matched t mapName p.position := by
  obtain ⟨q, hq, hpos, hhead⟩ := h
  cases hT : t.find mapName with
  | none =>
      rw [rmfPose_of_find_none hT] at hq
      cases hq
  | some T =>
      obtain ⟨T₀, h₀⟩ := Option.ne_none_iff_exists'.mp (CoordinateTransforms.first?_ne_none hT)
      rw [rmfPose_of_find hT, Option.some.injEq, hx.applyInverse_eq_iff,
        transformPosition_of_first hx h₀] at hq
      obtain ⟨hmap, hrot⟩ := hq
      refine ⟨T₀, T, h₀, hT, ?_, hpos ▸ hmap⟩
      -- the reported heading, turned by the rotation, is the heading that was read back
      have hyaw : (q.yaw : Angle) + T.rotation = (yawOverride.getD p.yaw : ℝ) := by
        rw [← Angle.coe_add, hrot, hx.getYaw]
      rw [← hhead] at hyaw
      exact add_eq_left.mp hyaw

theorem agrees_of_matched (hx : x.Documented) {mapName : String} {p : Pose}
    (h : Matched t mapName p.position) (i : Nat) (yawOverride : Option ℝ) :
    Agrees x t mapName p i yawOverride := by
  obtain ⟨T₀, T, h₀, hT, hrot, hmap⟩ := h
  refine ⟨⟨p.position, x.getYaw (yawQuaternion (yawOverride.getD p.yaw)) - T.rotation⟩, ?_, rfl, ?_⟩
  · rw [rmfPose_of_find hT, Option.some.injEq, hx.applyInverse_eq_iff,
      transformPosition_of_first hx h₀]
    exact ⟨hmap, sub_add_cancel _ _⟩
  · rw [Angle.coe_sub, hrot, sub_zero, hx.getYaw]

/-- **The conversions agree exactly where the transforms match**: for every table, map, planned
pose and heading, overridden or not. -/
theorem agrees_iff (hx : x.Documented) (mapName : String) (p : Pose) (i : Nat)
    (yawOverride : Option ℝ) :
    Agrees x t mapName p i yawOverride ↔ Matched t mapName p.position :=
  ⟨matched_of_agrees hx, fun h => agrees_of_matched hx h i yawOverride⟩

/-- Two floors with one and the same transform. -/
def twoFloors : CoordinateTransforms where
  entries := [("Floor0", ⟨0, 1, (1, 0), one_pos⟩), ("Floor1", ⟨0, 1, (1, 0), one_pos⟩)]
  sorted := by decide

theorem agrees_iff_twoFloors :
    Agrees standard twoFloors "Floor1" ⟨(0, 1), π⟩ 0 none ∧
      Matched twoFloors "Floor1" (0, 1) := by
  have h : Matched twoFloors "Floor1" (0, 1) := ⟨_, _, rfl, rfl, Angle.coe_zero, rfl⟩
  exact ⟨(agrees_iff standard_documented "Floor1" ⟨(0, 1), π⟩ 0 none).mpr h, h⟩

/-- A floor whose robot coordinates are turned by half a turn. -/
def turned : CoordinateTransforms where
  entries := [("Floor0", ⟨π, 1, (0, 0), one_pos⟩)]
  sorted := by decide

/-- The robot is sent with the heading of the plan, and reported with the opposite one. -/
theorem disagrees :
    ¬ ∀ (x : Externals) (t : CoordinateTransforms) (mapName : String) (p : Pose) (i : Nat)
      (yawOverride : Option ℝ), x.Documented → Agrees x t mapName p i yawOverride := by
  intro h
  obtain ⟨T₀, T, h₀, hT, hrot, -⟩ :=
    matched_of_agrees standard_documented
      (h standard turned "Floor0" ⟨(0, 0), 0⟩ 0 none standard_documented)
  cases hT
  exact Angle.pi_ne_zero hrot

end EgbFleet.Frames

end
