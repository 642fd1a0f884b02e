import EgbFleet.Frames.Agreement
import EgbFleet.Paths.BestApproach
import EgbFleet.Paths.ClosestWaypoint
import EgbFleet.Paths.Goals
import EgbFleet.Paths.UndockSearch
import EgbFleet.Support.Headings

/-!
# Paths — planning an undock

`UndockAction::handle_planning` finds the waypoint closest to the robot, searches for a path to a
junction, and makes of it the poses that the context's `execute_navigation` is passed.  The
positions are converted to the robot's coordinates first, and the headings computed there, each
opposite to the leg that leads to the pose; the first, to the leg that leads on.

So the headings need no conversion of their own, which `waypoint_to_msg` leaves out: a robot that
stands at one of these poses is reported at the waypoint, with its back to where the path leads
(`undock_backs_out`).
-/

noncomputable section

namespace EgbFleet.Paths

open Real Frames

/-! ### The poses -/

/-- The pose made of the waypoint at `i`.  `setRPY(0, 0, yaw)` is the quaternion of a heading. -/
def undockPose (x : Externals) (t : CoordinateTransforms) (g : Graph (ℝ × ℝ))
    (waypointIndices : List ℕ) (i : ℕ) : RosPose :=
  let robotPosition (j : ℕ) := transformPosition x t (g.location (waypointIndices.getD j 0))
  let yaw :=
    if 0 < i then heading (normalized (robotPosition (i - 1) - robotPosition i))
    else if i < waypointIndices.length - 1 then
      oppositeHeading (normalized (robotPosition (i + 1) - robotPosition i))
    else 0
  { x := (robotPosition i).1
    y := (robotPosition i).2
    z := 0
    orientation := yawQuaternion yaw }

/-- `ros2_poses`. -/
def undockPoses (x : Externals) (t : CoordinateTransforms) (g : Graph (ℝ × ℝ))
    (waypointIndices : List ℕ) : List RosPose :=
  (List.range waypointIndices.length).map (undockPose x t g waypointIndices)

/-- The fields of `RobotActionContext` that `handle_planning` reads, with the transform `get_pose`
finds. -/
structure UndockContext where
  trafficGraph : Option (Graph (ℝ × ℝ))
  coordinateTransforms : Option CoordinateTransforms
  executeNavigation : Bool
  transform : Option RosPose
  mapName : String

/-- The robot's pose in RMF's coordinates, or as it is where its map has no transform. -/
def planningPose (x : Externals) (t : CoordinateTransforms) (mapName : String) (robotPose : Pose) :
    Pose :=
  match t.find mapName with
  | some T => x.applyInverse T robotPose
  | none => robotPose

/-- `UndockAction::handle_planning`, so many whole seconds after the action was made: the poses
passed to `execute_navigation`, or `none` where the action fails. -/
def handlePlanning (x : Externals)
    (computePlanStarts : (g : Graph (ℝ × ℝ)) → String → Pose → ℤ → List (PlanStart g))
    (elapsed : ℤ) (now : ℤ) (c : UndockContext) : Option (List RosPose) :=
  if 60 < elapsed then none
  else
    match c.trafficGraph, c.coordinateTransforms with
    | none, _ | some _, none => none
    | some g, some t =>
        if c.executeNavigation then
          match getPose x c.transform with
          | none => none
          | some robotPose =>
              match findClosestWaypoint (some g) computePlanStarts
                  (planningPose x t c.mapName robotPose) c.mapName now with
              | none => none
              | some startWp =>
                  let waypointIndices := g.generateUndockPath startWp
                  if waypointIndices.isEmpty then none
                  else some (undockPoses x t g waypointIndices)
        else none

/-! ### What it makes of what it finds -/

variable {x : Externals} {t : CoordinateTransforms} {g : Graph (ℝ × ℝ)}
  {computePlanStarts : (g : Graph (ℝ × ℝ)) → String → Pose → ℤ → List (PlanStart g)}
  {elapsed now : ℤ} {c : UndockContext} {poses : List RosPose}

/-- It plans just if nothing is missing, it is not too late, a waypoint is close, and the search
finds a path. -/
theorem handlePlanning_eq_some :
    handlePlanning x computePlanStarts elapsed now c = some poses ↔
      elapsed ≤ 60 ∧ c.executeNavigation = true ∧
        ∃ g t robotPose startWp, c.trafficGraph = some g ∧ c.coordinateTransforms = some t ∧
          getPose x c.transform = some robotPose ∧
          findClosestWaypoint (some g) computePlanStarts
            (planningPose x t c.mapName robotPose) c.mapName now = some startWp ∧
          g.generateUndockPath startWp ≠ [] ∧
          poses = undockPoses x t g (g.generateUndockPath startWp) := by
  constructor
  · intro h
    unfold handlePlanning at h
    split at h
    · cases h
    rename_i helapsed
    split at h
    · cases h
    · cases h
    rename_i g t hg ht
    split at h
    · rename_i hnav
      split at h
      · cases h
      rename_i robotPose hp
      split at h
      · cases h
      rename_i startWp hs
      dsimp only at h
      split at h
      · cases h
      rename_i hne
      cases h
      refine ⟨not_lt.mp helapsed, hnav, g, t, robotPose, startWp, hg, ht, hp, hs, ?_, rfl⟩
      exact fun hnil => hne (List.isEmpty_iff.mpr hnil)
    · cases h
  · rintro ⟨helapsed, hnav, g, t, robotPose, startWp, hg, ht, hp, hs, hne, rfl⟩
    simp [handlePlanning, not_lt.mpr helapsed, hg, ht, hnav, hp, hs, hne]

@[simp] theorem length_undockPoses (waypointIndices : List ℕ) :
    (undockPoses x t g waypointIndices).length = waypointIndices.length := by
  simp [undockPoses]

theorem getElem?_undockPoses {waypointIndices : List ℕ} {i : ℕ} {pose : RosPose}
    (h : (undockPoses x t g waypointIndices)[i]? = some pose) :
    i < waypointIndices.length ∧ pose = undockPose x t g waypointIndices i := by
  simp only [undockPoses, List.getElem?_map, Option.map_eq_some_iff] at h
  obtain ⟨j, hj, rfl⟩ := h
  obtain ⟨hlt, rfl⟩ := List.getElem?_eq_some_iff.mp hj
  rw [List.length_range] at hlt
  rw [List.getElem_range]
  exact ⟨hlt, rfl⟩

/-! ### Where the robot is, at one of them -/

theorem direction_normalized (v : ℝ × ℝ) : Plane.direction (normalized v) = Plane.direction v := by
  unfold normalized
  dsimp only
  split
  · rename_i hpos
    have hsmul : (v.1 / √(v.1 * v.1 + v.2 * v.2), v.2 / √(v.1 * v.1 + v.2 * v.2)) =
        (√(v.1 * v.1 + v.2 * v.2))⁻¹ • v := by
      ext <;> simp [div_eq_inv_mul]
    rw [hsmul, Plane.direction_smul (inv_pos.mpr (sqrt_pos.mpr hpos))]
  · rfl

theorem normalized_ne_zero {v : ℝ × ℝ} (hv : v ≠ 0) : normalized v ≠ 0 := by
  intro hzero
  have hpointing := pointing_normalized hv
  rw [hzero] at hpointing
  have hcos := congrArg Prod.fst hpointing
  have hsin := congrArg Prod.snd hpointing
  have hunit := sin_sq_add_cos_sq (heading 0)
  simp only [pointing, Prod.fst_zero, Prod.snd_zero] at hcos hsin
  rw [hcos, hsin] at hunit
  norm_num at hunit

/-- The heading computed of the way back. -/
theorem heading_backwards {v : ℝ × ℝ} (hv : v ≠ 0) :
    (heading (normalized (-v)) : Angle) = Plane.direction v + π :=
  (direction_normalized (-v)).trans (Plane.direction_neg hv)

theorem oppositeHeading_backwards {v : ℝ × ℝ} (hv : v ≠ 0) :
    (oppositeHeading (normalized v) : Angle) = Plane.direction v + π := by
  rw [oppositeHeading, if_neg (normalized_ne_zero hv)]
  change Plane.direction (-normalized v) = _
  rw [Plane.direction_neg (normalized_ne_zero hv), direction_normalized]

/-- What is reported of a robot at a converted position, of this heading. -/
theorem rmfPose_transformPosition (hx : x.Documented) {mapName : String} {T : Transformation}
    (hT : t.find mapName = some T) (hfirst : t.first? = some T) (p : ℝ × ℝ) (yaw : ℝ) :
    ∃ q, RobotState.rmfPose x ⟨mapName, t, true⟩
        (some ⟨(transformPosition x t p).1, (transformPosition x t p).2, 0, yawQuaternion yaw⟩) =
          some q ∧ q.position = p ∧ (q.yaw : Angle) + T.rotation = yaw := by
  refine ⟨⟨p, x.getYaw (yawQuaternion yaw) - T.rotation⟩, ?_, rfl, ?_⟩
  · simp only [RobotState.rmfPose, getPose, Option.map_some, hT, if_true, Option.some.injEq,
      hx.applyInverse_eq_iff, transformPosition_of_first hx hfirst]
    exact ⟨trivial, sub_add_cancel _ _⟩
  · rw [Angle.coe_sub, sub_add_cancel, hx.getYaw]

/-- The leg that leads to the waypoint at `i`; the first leads on from the first waypoint. -/
def IsLeg (path : List ℕ) (i v w : ℕ) : Prop :=
  path[i - 1]? = some v ∧ path[i - 1 + 1]? = some w

/-- The heading made of a leg points back along it, in the robot's coordinates. -/
theorem exists_yaw_undockPose (hx : x.Documented) {T : Transformation}
    (hfirst : t.first? = some T) {path : List ℕ} {i : ℕ} (hi : i < path.length) :
    ∃ yaw, undockPose x t g path i =
        ⟨(transformPosition x t (g.location (path.getD i 0))).1,
          (transformPosition x t (g.location (path.getD i 0))).2, 0, yawQuaternion yaw⟩ ∧
      ∀ v w, IsLeg path i v w → g.location v ≠ g.location w →
        (yaw : Angle) = Plane.direction (g.location w - g.location v) + T.rotation + π := by
  refine ⟨_, rfl, fun v w ⟨hv, hw⟩ hne => ?_⟩
  have hposition (p : ℝ × ℝ) : transformPosition x t p = T.map p :=
    transformPosition_of_first hx hfirst p
  have hleg : T.map (g.location w) - T.map (g.location v) ≠ 0 :=
    sub_ne_zero.mpr (T.map_injective.ne hne.symm)
  rw [← Plane.direction_map_sub_map T hne.symm]
  cases i with
  | zero =>
      obtain ⟨hlt, -⟩ := List.getElem?_eq_some_iff.mp hw
      have hv : path.getD 0 0 = v := by simpa using congrArg (Option.getD · 0) hv
      have hw : path.getD 1 0 = w := by simpa using congrArg (Option.getD · 0) hw
      rw [if_neg (lt_irrefl 0), if_pos (Nat.lt_sub_of_add_lt hlt)]
      simp only [zero_add, hv, hw, hposition]
      exact oppositeHeading_backwards hleg
  | succ i =>
      have hv : path.getD i 0 = v := by simpa using congrArg (Option.getD · 0) hv
      have hw : path.getD (i + 1) 0 = w := by simpa using congrArg (Option.getD · 0) hw
      rw [if_pos (Nat.succ_pos i)]
      simp only [Nat.add_sub_cancel, hv, hw, hposition]
      rw [← neg_sub]
      exact heading_backwards hleg

/-- **The robot backs out.**  Where the table's first transform is that of the robot's map, a plan
is one pose for each waypoint of a simple path along lanes, from the waypoint found closest to a
nearest junction; and a robot at one of the poses is reported at its waypoint, with its back to
where the leg leads. -/
theorem undock_backs_out (hx : x.Documented) {T : Transformation}
    (hg : c.trafficGraph = some g) (ht : c.coordinateTransforms = some t)
    (hT : t.find c.mapName = some T) (hfirst : t.first? = some T)
    (h : handlePlanning x computePlanStarts elapsed now c = some poses) :
    ∃ robotPose startWp path, getPose x c.transform = some robotPose ∧
      findClosestWaypoint (some g) computePlanStarts (x.applyInverse T robotPose) c.mapName now =
        some startWp ∧
      UndockPath g startWp path ∧ poses.length = path.length ∧
      ∀ i w pose, path[i]? = some w → poses[i]? = some pose →
        ∃ q, RobotState.rmfPose x ⟨c.mapName, t, true⟩ (some pose) = some q ∧
          q.position = g.location w ∧
          ∀ u v, IsLeg path i u v → g.location u ≠ g.location v →
            (q.yaw : Angle) = Plane.direction (g.location v - g.location u) + π := by
  obtain ⟨-, -, g', t', robotPose, startWp, hg', ht', hp, hs, hne, rfl⟩ :=
    handlePlanning_eq_some.mp h
  cases hg.symm.trans hg'
  cases ht.symm.trans ht'
  simp only [planningPose, hT] at hs
  have hpath : UndockPath g startWp (g.generateUndockPath startWp) := by
    have houtcome := outcome_generateUndockPath g startWp
    generalize g.generateUndockPath startWp = path at houtcome hne
    cases houtcome with
    | failed => exact absurd rfl hne
    | found hpath => exact hpath
  refine ⟨robotPose, startWp, _, hp, hs, hpath, by simp, fun i w pose hw hpose => ?_⟩
  obtain ⟨hlt, rfl⟩ := getElem?_undockPoses hpose
  obtain ⟨yaw, hyaw, hback⟩ := exists_yaw_undockPose (g := g) hx hfirst hlt
  have hw : (g.generateUndockPath startWp).getD i 0 = w := by
    simpa using congrArg (Option.getD · 0) hw
  rw [hyaw, hw]
  obtain ⟨q, hq, hposition, hheading⟩ := rmfPose_transformPosition hx hT hfirst (g.location w) yaw
  refine ⟨q, hq, hposition, fun u v hleg hne => ?_⟩
  rw [hback u v hleg hne, add_right_comm] at hheading
  exact add_right_cancel hheading

/-- A waypoint at the end of a lane to a junction. -/
def fork : Graph (ℝ × ℝ) where
  waypoints := [(1, 0), (0, 0), (1, -1), (1, 1)]
  lanes := [{ entry := 1, exit := 0 }, { entry := 0, exit := 2 }, { entry := 0, exit := 3 }]
  ends := by simp

/-- Plans start from a graph's second waypoint. -/
def secondWaypoint (g : Graph (ℝ × ℝ)) (_ : String) (_ : Pose) (_ : ℤ) : List (PlanStart g) :=
  if h : 1 < g.waypoints.length then [⟨⟨1, h⟩, none⟩] else []

/-- A robot at that end, where the transform is its floor's. -/
def atTheEnd (t : CoordinateTransforms) (T : Transformation) : UndockContext where
  trafficGraph := some fork
  coordinateTransforms := some t
  executeNavigation := true
  transform := some ⟨(T.map (0, 0)).1, (T.map (0, 0)).2, 0, yawQuaternion 0⟩
  mapName := "Floor0"

theorem collected_fork {mapName : String} {robotPose : Pose} {now : ℤ} {v : ℕ} :
    Collected (secondWaypoint fork mapName robotPose now) v ↔ v = 1 := by
  have hstarts : secondWaypoint fork mapName robotPose now = [⟨⟨1, by decide⟩, none⟩] := rfl
  rw [hstarts]
  constructor
  · rintro (⟨-, start, hstart, rfl⟩ | ⟨start, hstart, ln, hln, -⟩)
    · cases List.mem_singleton.mp hstart
      rfl
    · cases List.mem_singleton.mp hstart
      cases hln
  · rintro rfl
    exact .inl ⟨one_ne_zero, _, List.mem_singleton_self _, rfl⟩

theorem exists_plan_fork (T : Transformation) :
    ∃ poses, handlePlanning standard secondWaypoint 0 0
      (atTheEnd ⟨[("Floor0", T)], List.pairwise_singleton _ _⟩ T) = some poses := by
  have hpose : (standard.applyInverse T ⟨T.map (0, 0), standard.getYaw (yawQuaternion 0)⟩).position
      = (0, 0) := by simp [standard]
  have hnear : fork.distance
      (standard.applyInverse T ⟨T.map (0, 0), standard.getYaw (yawQuaternion 0)⟩) 1 <
        maxDouble := by
    have hzero : fork.location 1 = (0, 0) := rfl
    rw [Graph.distance, hpose, hzero, sub_self, Plane.norm_eq_zero.mpr rfl]
    exact Nat.cast_pos.mpr (by positivity)
  obtain ⟨startWp, hs⟩ := exists_findClosestWaypoint (collected_fork.mpr rfl) hnear
  obtain rfl := collected_fork.mp (closest_of_findClosestWaypoint hs).1
  have hjunction : fork.JunctionWithin 1 (maxDepth - 1) :=
    ⟨1, 0, by decide, .step .refl ⟨_, List.mem_cons_self, rfl, rfl⟩, by decide,
      Graph.isJunction_iff.mp (by decide)⟩
  refine ⟨_, handlePlanning_eq_some.mpr ⟨by decide, rfl, _, _, _, _, rfl, rfl, rfl, hs, ?_, rfl⟩⟩
  exact mt generateUndockPath_eq_nil.mp (not_not.mpr hjunction)

/-- The robot's coordinates are turned by a right angle. -/
theorem undock_backs_out_fork :
    ∃ (poses : List RosPose) (path : List ℕ), UndockPath fork 1 path ∧ poses.length = path.length ∧
      ∀ i w pose, path[i]? = some w → poses[i]? = some pose →
        ∃ q, RobotState.rmfPose standard
            ⟨"Floor0", ⟨[("Floor0", ⟨π / 2, 1, (3, 0), one_pos⟩)], List.pairwise_singleton _ _⟩,
              true⟩ (some pose) = some q ∧
          q.position = fork.location w ∧
          ∀ u v, IsLeg path i u v → fork.location u ≠ fork.location v →
            (q.yaw : Angle) = Plane.direction (fork.location v - fork.location u) + π := by
  obtain ⟨poses, h⟩ := exists_plan_fork ⟨π / 2, 1, (3, 0), one_pos⟩
  obtain ⟨robotPose, startWp, path, -, hs, hpath, hlen, hall⟩ :=
    undock_backs_out standard_documented rfl rfl rfl rfl h
  obtain rfl := collected_fork.mp (closest_of_findClosestWaypoint hs).1
  exact ⟨poses, path, hpath, hlen, hall⟩

end EgbFleet.Paths

end
