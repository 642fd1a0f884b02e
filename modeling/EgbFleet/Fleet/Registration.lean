import EgbFleet.Frames.Conversion
import EgbFleet.Paths.Graph

/-!
# Fleet — registering a robot

A robot enters the fleet in one of two ways.  `FleetAdapter::initialize_static_robots` registers the
robots of the configuration; `RestRobotDiscovery::add_dynamic_robot` registers one that a scan has
found.  Both read the robot's pose and the fleet's profile, compute the waypoints it may start from,
and pass these to `add_robot`, or pass over the robot.

`add_dynamic_robot` converts the pose to RMF's frame, and passes over a robot whose map has no
transform.  `initialize_static_robots` takes the robot's own coordinates for RMF's, and looks for no
transform.  `registrations_agree_iff` says where this makes no difference.
-/

noncomputable section

namespace EgbFleet.Fleet

open Frames

/-! ### The configuration -/

/-- A number of the configuration. -/
inductive Scalar where
  | missing
  | malformed
  | number (value : ℝ)

/-- `as<double>()`; `none` where it raises. -/
def Scalar.read : Scalar → Option ℝ
  | .number value => some value
  | .missing | .malformed => none

/-- `rmf_fleet.profile`. -/
structure ProfileConfig where
  footprint : Scalar
  vicinity : Scalar

/-- `rmf_traffic::Profile`, by the radii of its circles. -/
structure Profile where
  footprint : ℝ
  vicinity : ℝ

/-- The profile of a static robot; `none` where reading it raises. -/
def ProfileConfig.staticProfile (c : ProfileConfig) : Option Profile :=
  match c.footprint.read, c.vicinity with
  | none, _ | some _, .malformed => none
  | some footprint, .missing => some ⟨footprint, footprint + footprint⟩
  | some footprint, .number vicinity => some ⟨footprint, vicinity⟩

/-- The profile of a dynamic robot: a vicinity that cannot be read is as good as none. -/
def ProfileConfig.dynamicProfile (c : ProfileConfig) : Option Profile :=
  match c.footprint.read, c.vicinity with
  | none, _ => none
  | some footprint, .missing | some footprint, .malformed => some ⟨footprint, footprint + footprint⟩
  | some footprint, .number vicinity => some ⟨footprint, vicinity⟩

theorem ProfileConfig.dynamicProfile_of_static {c : ProfileConfig} {profile : Profile}
    (h : c.staticProfile = some profile) : c.dynamicProfile = some profile := by
  obtain ⟨footprint, vicinity⟩ := c
  cases footprint <;> cases vicinity <;> simp_all [staticProfile, dynamicProfile, Scalar.read]

theorem ProfileConfig.dynamicProfile_eq_none {c : ProfileConfig} :
    c.dynamicProfile = none ↔ c.footprint.read = none := by
  obtain ⟨footprint, vicinity⟩ := c
  cases footprint <;> cases vicinity <;> simp [dynamicProfile, Scalar.read]

/-- What all registrations of a fleet read.  `S` is `rmf_traffic::agv::Plan::Start`. -/
structure FleetConfig (S : Type) where
  coordinateTransforms : CoordinateTransforms
  graph : Paths.Graph (ℝ × ℝ)
  profile : ProfileConfig
  /-- `rmf_traffic::agv::compute_plan_starts`, with both callers' merge distances, at a time. -/
  computePlanStarts : Paths.Graph (ℝ × ℝ) → String → Pose → ℤ → List S

/-! ### The two registrations -/

/-- What `add_robot` is passed: the profile and the starts, with the pose they were computed
from. -/
structure Registration (S : Type) where
  profile : Profile
  pose : Pose
  starts : List S

namespace FleetConfig

variable {S : Type} (f : FleetConfig S)

/-- Neither registers a robot without starts. -/
def startFrom (mapName : String) (now : ℤ) (profile : Profile) (pose : Pose) :
    Option (Registration S) :=
  let starts := f.computePlanStarts f.graph mapName pose now
  if starts.isEmpty then none else some ⟨profile, pose, starts⟩

/-- An iteration of `initialize_static_robots`, from the pose on; `none` where it skips the
robot. -/
def staticRegistration (mapName : String) (now : ℤ) (initialPose : Pose) :
    Option (Registration S) :=
  match f.profile.staticProfile with
  | none => none
  | some profile => f.startFrom mapName now profile initialPose

/-- `add_dynamic_robot`, from the pose on; `none` where it returns `false`. -/
def dynamicRegistration (x : Externals) (mapName : String) (now : ℤ) (initialPose : Pose) :
    Option (Registration S) :=
  match f.profile.dynamicProfile with
  | none => none
  | some profile =>
      match f.coordinateTransforms.find mapName with
      | none => none
      | some transform => f.startFrom mapName now profile (x.applyInverse transform initialPose)

/-! ### Agreement -/

/-- `compute_plan_starts` finds a start there. -/
def Startable (mapName : String) (now : ℤ) (pose : Pose) : Prop :=
  f.computePlanStarts f.graph mapName pose now ≠ []

/-- The pose in RMF's frame, where the robot's map has a transform. -/
def rmfPose (x : Externals) (mapName : String) (pose : Pose) : Option Pose :=
  (f.coordinateTransforms.find mapName).map (x.applyInverse · pose)

/-- Both skip the robot, or both register it, with starts computed from one pose. -/
def Agree (x : Externals) (mapName : String) (now : ℤ) (pose : Pose) : Prop :=
  (f.staticRegistration mapName now pose).map Registration.pose =
    (f.dynamicRegistration x mapName now pose).map Registration.pose

variable {f} {x : Externals} {mapName : String} {now : ℤ} {pose p : Pose}

theorem startFrom_pose_eq_some {profile : Profile} :
    (f.startFrom mapName now profile pose).map Registration.pose = some p ↔
      f.Startable mapName now pose ∧ pose = p := by
  by_cases h : f.computePlanStarts f.graph mapName pose now = []
  · simp [startFrom, Startable, h]
  · simp [startFrom, Startable, h]

/-- The pose a static robot is registered at. -/
theorem static_pose_eq_some :
    (f.staticRegistration mapName now pose).map Registration.pose = some p ↔
      f.profile.staticProfile ≠ none ∧ f.Startable mapName now pose ∧ pose = p := by
  unfold staticRegistration
  split
  · rename_i hp
    simp [hp]
  · rename_i profile hp
    rw [startFrom_pose_eq_some, hp]
    simp

/-- The pose a dynamic robot is registered at. -/
theorem dynamic_pose_eq_some :
    (f.dynamicRegistration x mapName now pose).map Registration.pose = some p ↔
      f.profile.footprint.read ≠ none ∧ f.rmfPose x mapName pose = some p ∧
        f.Startable mapName now p := by
  unfold dynamicRegistration rmfPose
  rw [Ne, ← ProfileConfig.dynamicProfile_eq_none]
  split
  · rename_i hp
    simp [hp]
  · rename_i profile hp
    split
    · rename_i hT
      simp [hT]
    · rename_i transform hT
      rw [startFrom_pose_eq_some, hp, hT]
      simp only [reduceCtorEq, not_false_eq_true, true_and, Option.map_some, Option.some.injEq]
      constructor
      · rintro ⟨hstart, rfl⟩; exact ⟨rfl, hstart⟩
      · rintro ⟨rfl, hstart⟩; exact ⟨hstart, rfl⟩

/-- **Where the two registrations agree.**  The footprint cannot be read; or the map's transform
leaves the pose, from which there are starts, where it is; or neither finds starts: a static robot
at the pose itself, a dynamic one at the converted pose, if there is one. -/
theorem registrations_agree_iff :
    f.Agree x mapName now pose ↔
      f.profile.footprint.read = none ∨
        (f.profile.staticProfile ≠ none ∧ f.Startable mapName now pose ∧
          f.rmfPose x mapName pose = some pose) ∨
        (¬ (f.profile.staticProfile ≠ none ∧ f.Startable mapName now pose) ∧
          ∀ p, f.rmfPose x mapName pose = some p → ¬ f.Startable mapName now p) := by
  have hagree : f.Agree x mapName now pose ↔ ∀ p,
      (f.profile.staticProfile ≠ none ∧ f.Startable mapName now pose ∧ pose = p) ↔
        (f.profile.footprint.read ≠ none ∧ f.rmfPose x mapName pose = some p ∧
          f.Startable mapName now p) := by
    unfold Agree
    rw [Option.ext_iff]
    exact forall_congr' fun p => iff_congr static_pose_eq_some dynamic_pose_eq_some
  -- a static profile that can be read has a footprint that can
  have hread : f.profile.staticProfile ≠ none → f.profile.footprint.read ≠ none := by
    intro h
    obtain ⟨profile, hp⟩ := Option.ne_none_iff_exists'.mp h
    rw [Ne, ← ProfileConfig.dynamicProfile_eq_none, ProfileConfig.dynamicProfile_of_static hp]
    exact Option.some_ne_none profile
  rw [hagree]
  by_cases hf : f.profile.footprint.read = none
  · have hs : f.profile.staticProfile = none := not_not.mp fun h => hread h hf
    simp [hf, hs]
  · by_cases hs : f.profile.staticProfile ≠ none ∧ f.Startable mapName now pose
    · constructor
      · intro h
        exact .inr (.inl ⟨hs.1, hs.2, ((h pose).mp ⟨hs.1, hs.2, rfl⟩).2.1⟩)
      · rintro (h | ⟨-, -, hpose⟩ | ⟨h, -⟩) p
        · exact absurd h hf
        · constructor
          · rintro ⟨-, -, rfl⟩
            exact ⟨hf, hpose, hs.2⟩
          · rintro ⟨-, hp, -⟩
            exact ⟨hs.1, hs.2, Option.some.inj (hpose.symm.trans hp)⟩
        · exact absurd hs h
    · constructor
      · intro h
        refine .inr (.inr ⟨hs, fun p hp hstart => hs ?_⟩)
        obtain ⟨hprofile, hpose, -⟩ := (h p).mpr ⟨hf, hp, hstart⟩
        exact ⟨hprofile, hpose⟩
      · rintro (h | ⟨h, h', -⟩ | ⟨-, hno⟩) p
        · exact absurd h hf
        · exact absurd ⟨h, h'⟩ hs
        · constructor
          · rintro ⟨h, h', -⟩
            exact absurd ⟨h, h'⟩ hs
          · rintro ⟨-, hp, hstart⟩
            exact absurd hstart (hno p hp)

end FleetConfig

/-- A fleet on one floor, with this transform, where a robot may start anywhere. -/
def oneFloor (T : Transformation) : FleetConfig Unit where
  coordinateTransforms := ⟨[("Floor0", T)], List.pairwise_singleton _ _⟩
  graph := ⟨[(0, 0)], [], by simp⟩
  profile := ⟨.number (3 / 10), .number 6⟩
  computePlanStarts := fun _ _ _ _ => [()]

/-- The robots' coordinates start a metre further along: a static robot is registered at these, a
dynamic one at RMF's. -/
theorem registrations_disagree :
    ¬ ∀ (f : FleetConfig Unit) (mapName : String) (now : ℤ) (pose : Pose),
      f.Agree standard mapName now pose := by
  intro h
  have hpose := h (oneFloor ⟨0, 1, (1, 0), one_pos⟩) "Floor0" 0 ⟨(1, 0), 0⟩
  have hx := congrArg (Option.map fun p : Pose => p.position.1) hpose
  simp [FleetConfig.staticRegistration, FleetConfig.dynamicRegistration, FleetConfig.startFrom,
    oneFloor, ProfileConfig.staticProfile, ProfileConfig.dynamicProfile, Scalar.read,
    CoordinateTransforms.find, standard, Plane.Similarity.unmap] at hx

end EgbFleet.Fleet

end
