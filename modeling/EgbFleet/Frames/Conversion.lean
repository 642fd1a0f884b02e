import EgbFleet.Support.Plane
import Mathlib.Analysis.SpecialFunctions.Complex.Arg

/-!
# Frames — RMF and robot coordinates

`PathHandle::waypoint_to_msg` converts a planned pose to the robot's coordinates,
`RobotState::update` converts the robot's pose back.  Both read the table of transforms that
`parse_transformations` made: the first its first entry, the second the entry of the robot's map.

Lengths and angles are real numbers.  `Externals` is what the code calls outside the repository:
`apply` and `apply_inverse` of `rmf_fleet_adapter::agv::Transformation`, and the yaw `getRPY` of
`tf2::Matrix3x3` reads off a quaternion; `Externals.Documented` is what it relies on of them.
-/

noncomputable section

namespace EgbFleet.Frames

open Real

/-- `rmf_fleet_adapter::agv::Transformation`. -/
abbrev Transformation := Plane.Similarity

/-- A position and a heading, `Eigen::Vector3d` in the code. -/
@[ext]
structure Pose where
  position : ℝ × ℝ
  yaw : ℝ

structure Quaternion where
  x : ℝ
  y : ℝ
  z : ℝ
  w : ℝ

/-- `geometry_msgs/Pose`, and the `Transform` TF returns. -/
structure RosPose where
  x : ℝ
  y : ℝ
  z : ℝ
  orientation : Quaternion

/-- `egb_fleet_msgs/Waypoint`. -/
structure WaypointMsg where
  id : String
  sequenceId : UInt32
  pose : RosPose

/-- The quaternion of a heading: no roll, no pitch. -/
def yawQuaternion (θ : ℝ) : Quaternion := ⟨0, 0, sin (θ / 2), cos (θ / 2)⟩

/-! ### Outside the repository -/

/-- What the code calls outside the repository. -/
structure Externals where
  apply : Transformation → Pose → Pose
  applyInverse : Transformation → Pose → Pose
  /-- The yaw of `tf2::Matrix3x3(q).getRPY`. -/
  getYaw : Quaternion → ℝ

/-- `apply` rotates, scales and translates, `apply_inverse` undoes it, and a heading is read back
as that heading, up to full turns. -/
structure Externals.Documented (x : Externals) : Prop where
  apply : ∀ T p, x.apply T p = ⟨T.map p.position, p.yaw + T.rotation⟩
  applyInverse_apply : ∀ T p, x.applyInverse T (x.apply T p) = p
  apply_applyInverse : ∀ T p, x.apply T (x.applyInverse T p) = p
  getYaw : ∀ θ : ℝ, (x.getYaw (yawQuaternion θ) : Angle) = θ

/-- Functions as documented.  The yaw is that of the rotation matrix of the quaternion. -/
def standard : Externals where
  apply T p := ⟨T.map p.position, p.yaw + T.rotation⟩
  applyInverse T q := ⟨T.unmap q.position, q.yaw - T.rotation⟩
  getYaw q := Complex.arg ⟨1 - 2 * (q.y * q.y + q.z * q.z), 2 * (q.x * q.y + q.w * q.z)⟩

theorem standard_documented : standard.Documented where
  apply := fun _ _ => rfl
  applyInverse_apply := fun T p => by simp [standard]
  apply_applyInverse := fun T q => by simp [standard]
  getYaw := fun θ => by
    have hcos : 1 - 2 * (0 * 0 + sin (θ / 2) * sin (θ / 2)) = cos θ := by
      rw [mul_zero, zero_add, ← sq, ← cos_two_mul_eq_one_sub, mul_div_cancel₀ θ two_ne_zero]
    have hsin : 2 * (0 * 0 + cos (θ / 2) * sin (θ / 2)) = sin θ := by
      rw [mul_zero, zero_add, mul_comm (cos _), ← mul_assoc, ← sin_two_mul,
        mul_div_cancel₀ θ two_ne_zero]
    have hz : (⟨cos θ, sin θ⟩ : ℂ) = Angle.cos θ + Angle.sin θ * Complex.I := by
      apply Complex.ext <;> simp [-Complex.ofReal_cos, -Complex.ofReal_sin]
    simp only [standard, yawQuaternion, hcos, hsin, hz]
    exact Complex.arg_cos_add_sin_mul_I_coe_angle θ

/-! ### The table of transforms -/

/-- `std::map<std::string, Transformation>`, by ascending map name. -/
structure CoordinateTransforms where
  entries : List (String × Transformation)
  sorted : entries.Pairwise fun a b => a.1 < b.1

namespace CoordinateTransforms

/-- `begin()->second`. -/
def first? (t : CoordinateTransforms) : Option Transformation := t.entries.head?.map Prod.snd

def find (t : CoordinateTransforms) (mapName : String) : Option Transformation :=
  t.entries.lookup mapName

/-- A table in which a map is found has a first entry. -/
theorem first?_ne_none {t : CoordinateTransforms} {mapName : String} {T : Transformation}
    (h : t.find mapName = some T) : t.first? ≠ none := by
  intro hnone
  obtain ⟨entries, _⟩ := t
  cases entries with
  | nil => cases h
  | cons e entries => cases hnone

end CoordinateTransforms

/-! ### Conversions -/

/-- `PathHandle::transform_position`. -/
def transformPosition (x : Externals) (t : CoordinateTransforms) (rmfPosition : ℝ × ℝ) : ℝ × ℝ :=
  match t.first? with
  | none => rmfPosition
  | some T => (x.apply T ⟨rmfPosition, 0⟩).position

/-- `PathHandle::waypoint_to_msg`, of a waypoint with this position. -/
def waypointToMsg (x : Externals) (t : CoordinateTransforms) (position : Pose)
    (waypointIndex : Nat) (yawOverride : Option ℝ) : WaypointMsg :=
  let robotPosition := transformPosition x t position.position
  { id := "wp_" ++ toString waypointIndex
    sequenceId := UInt32.ofNat waypointIndex
    pose :=
      { x := robotPosition.1
        y := robotPosition.2
        z := 0
        orientation := yawQuaternion (yawOverride.getD position.yaw) } }

/-- `RobotState::get_pose`, of the transform TF returns. -/
def getPose (x : Externals) (transform : Option RosPose) : Option Pose :=
  transform.map fun tf => ⟨(tf.x, tf.y), x.getYaw tf.orientation⟩

/-- What `RobotState::update` reads before it has the RMF pose. -/
structure RobotState where
  mapName : String
  coordinateTransforms : CoordinateTransforms
  updateHandle : Bool

/-- The RMF pose `RobotState::update` computes; `none` where it returns before it has one. -/
def RobotState.rmfPose (x : Externals) (s : RobotState) (transform : Option RosPose) :
    Option Pose :=
  if s.updateHandle then
    match getPose x transform with
    | none => none
    | some pose =>
        match s.coordinateTransforms.find s.mapName with
        | some T => some (x.applyInverse T pose)
        | none => none
  else none

end EgbFleet.Frames

end
