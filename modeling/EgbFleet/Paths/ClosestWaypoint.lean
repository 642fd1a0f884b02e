import EgbFleet.Frames.Conversion
import EgbFleet.Paths.Graph
import EgbFleet.Support.Scan
import Mathlib.Data.Finset.Sort

/-!
# Paths — the closest waypoint

`UndockAction::find_closest_waypoint` is where the undock search starts from.  It collects the
waypoints of the starts that `compute_plan_starts` finds around the robot, with the ends of their
lanes, and returns the closest.

But it takes a start's waypoint 0 for none: waypoint 0 is only collected as the end of a lane.
`closest_waypoint_iff` says where that makes no difference.
-/

noncomputable section

namespace EgbFleet.Paths

open Frames

/-- `rmf_traffic::agv::Plan::Start`, on a graph: a waypoint, and the lane the robot is on, if it is
on one. -/
structure PlanStart (g : Graph (ℝ × ℝ)) where
  waypoint : Fin g.waypoints.length
  lane : Option (Fin g.lanes.length)

variable {g : Graph (ℝ × ℝ)}

/-- `candidate_waypoints` after an iteration of the loop over the starts. -/
def PlanStart.addCandidates (start : PlanStart g) (candidates : Finset ℕ) : Finset ℕ :=
  let wp : ℕ := start.waypoint
  let candidates := if wp ≠ 0 then insert wp candidates else candidates
  match start.lane with
  | none => candidates
  | some ln => insert g.lanes[ln].exit (insert g.lanes[ln].entry candidates)

/-- `candidate_waypoints`. -/
def candidateWaypoints (starts : List (PlanStart g)) : Finset ℕ :=
  starts.foldl (fun candidates start => start.addCandidates candidates) ∅

/-- `std::numeric_limits<double>::max()`. -/
def maxDouble : ℝ := ((2 ^ 53 - 1) * 2 ^ 971 : ℕ)

/-- How far a waypoint is from the robot. -/
def Graph.distance (g : Graph (ℝ × ℝ)) (robotPose : Pose) (wpIdx : ℕ) : ℝ :=
  Plane.norm (g.location wpIdx - robotPose.position)

/-- `UndockAction::find_closest_waypoint`; `computePlanStarts` is that of `rmf_traffic`, with the
merge distances it is passed, at a time. -/
def findClosestWaypoint (trafficGraph : Option (Graph (ℝ × ℝ)))
    (computePlanStarts : (g : Graph (ℝ × ℝ)) → String → Pose → ℤ → List (PlanStart g))
    (robotPose : Pose) (mapName : String) (now : ℤ) : Option ℕ :=
  match trafficGraph with
  | none => none
  | some g =>
      let starts := computePlanStarts g mapName robotPose now
      if starts.isEmpty then none
      else
        (Scan.least (fun _ => true) (g.distance robotPose) (maxDouble, none)
          ((candidateWaypoints starts).sort (· ≤ ·))).2

/-! ### The candidates -/

/-- An end of a lane some start is on. -/
def LaneEnd (starts : List (PlanStart g)) (w : ℕ) : Prop :=
  ∃ start ∈ starts, ∃ ln, start.lane = some ln ∧ (g.lanes[ln].entry = w ∨ g.lanes[ln].exit = w)

/-- A start's waypoint, or an end of its lane. -/
def Candidate (starts : List (PlanStart g)) (w : ℕ) : Prop :=
  (∃ start ∈ starts, start.waypoint = w) ∨ LaneEnd starts w

/-- A candidate other than a start's waypoint 0. -/
def Collected (starts : List (PlanStart g)) (w : ℕ) : Prop :=
  (w ≠ 0 ∧ ∃ start ∈ starts, start.waypoint = w) ∨ LaneEnd starts w

variable {starts : List (PlanStart g)} {w : ℕ}

theorem Collected.candidate (h : Collected starts w) : Candidate starts w :=
  h.imp_left And.right

theorem Candidate.collected (h : Candidate starts w) (hw : w ≠ 0) : Collected starts w :=
  h.imp_left fun hmem => ⟨hw, hmem⟩

theorem PlanStart.mem_addCandidates {start : PlanStart g} {candidates : Finset ℕ} :
    w ∈ start.addCandidates candidates ↔ w ∈ candidates ∨ Collected [start] w := by
  obtain ⟨wp, lane⟩ := start
  simp only [addCandidates, Collected, LaneEnd, List.mem_singleton, exists_eq_left]
  have hwp : w ∈ (if (wp : ℕ) ≠ 0 then insert (wp : ℕ) candidates else candidates) ↔
      w ∈ candidates ∨ w ≠ 0 ∧ wp = w := by
    by_cases hzero : (wp : ℕ) = 0
    · rw [if_neg (not_not.mpr hzero)]
      refine (or_iff_left ?_).symm
      rintro ⟨hw, rfl⟩
      exact hw hzero
    · rw [if_pos hzero, Finset.mem_insert, or_comm, eq_comm]
      refine or_congr_right (iff_and_self.mpr ?_)
      rintro rfl
      exact hzero
  cases lane with
  | none => simpa using hwp
  | some ln =>
      rw [Finset.mem_insert, Finset.mem_insert, hwp]
      simp only [Option.some.injEq, exists_eq_left', eq_comm, or_comm, or_left_comm]
      exact or_assoc

theorem mem_candidateWaypoints : w ∈ candidateWaypoints starts ↔ Collected starts w := by
  have hfold (candidates : Finset ℕ) :
      w ∈ starts.foldl (fun candidates start => start.addCandidates candidates) candidates ↔
        w ∈ candidates ∨ ∃ start ∈ starts, Collected [start] w := by
    induction starts generalizing candidates with
    | nil => simp
    | cons start starts ih => simp [ih, PlanStart.mem_addCandidates, or_assoc]
  rw [candidateWaypoints, hfold]
  simp only [Collected, LaneEnd, List.mem_singleton, exists_eq_left, Finset.notMem_empty, false_or]
  constructor
  · rintro ⟨start, hmem, ⟨hw, e⟩ | hlane⟩
    · exact .inl ⟨hw, start, hmem, e⟩
    · exact .inr ⟨start, hmem, hlane⟩
  · rintro (⟨hw, start, hmem, e⟩ | ⟨start, hmem, hlane⟩)
    · exact ⟨start, hmem, .inl ⟨hw, e⟩⟩
    · exact ⟨start, hmem, .inr hlane⟩

/-! ### The closest -/

/-- The waypoint returned is a candidate, and no candidate is closer to the robot. -/
def IsClosest (starts : List (PlanStart g)) (robotPose : Pose) (result : Option ℕ) : Prop :=
  ∃ w, result = some w ∧ Candidate starts w ∧
    ∀ v, Candidate starts v → g.distance robotPose w ≤ g.distance robotPose v

variable
  {computePlanStarts : (g : Graph (ℝ × ℝ)) → String → Pose → ℤ → List (PlanStart g)}
  {robotPose : Pose} {mapName : String} {now : ℤ}

/-- What is returned is the closest of the candidates collected, and below `maxDouble`. -/
theorem closest_of_findClosestWaypoint
    (h : findClosestWaypoint (some g) computePlanStarts robotPose mapName now = some w) :
    Collected (computePlanStarts g mapName robotPose now) w ∧
      g.distance robotPose w < maxDouble ∧
      ∀ v, Collected (computePlanStarts g mapName robotPose now) v →
        g.distance robotPose w ≤ g.distance robotPose v := by
  simp only [findClosestWaypoint] at h
  split at h
  · cases h
  · obtain ⟨hbound, i, hi⟩ := Scan.firstLeast_of_least_none h
    have hmem := (Finset.mem_sort _).mp hi.mem
    refine ⟨mem_candidateWaypoints.mp hmem, hbound, fun v hv => ?_⟩
    exact hi.least v ((Finset.mem_sort _).mpr (mem_candidateWaypoints.mpr hv)) rfl

/-- Something is returned, if a candidate is collected that is below `maxDouble`. -/
theorem exists_findClosestWaypoint
    (hw : Collected (computePlanStarts g mapName robotPose now) w)
    (hdist : g.distance robotPose w < maxDouble) :
    ∃ v, findClosestWaypoint (some g) computePlanStarts robotPose mapName now = some v := by
  have hmem := mem_candidateWaypoints.mpr hw
  have hne : (computePlanStarts g mapName robotPose now).isEmpty = false := by
    rw [List.isEmpty_eq_false_iff]
    intro hnil
    rw [hnil] at hmem
    cases hmem
  simp only [findClosestWaypoint, hne]
  exact Option.ne_none_iff_exists'.mp
    (Scan.least_ne_none ((Finset.mem_sort _).mpr hmem) rfl hdist)

/-- **The closest waypoint.**  One is returned that no candidate is closer than, just if a
candidate that is collected is near enough, and waypoint 0, where it is a candidate, is no closer
than all that are collected. -/
theorem closest_waypoint_iff :
    IsClosest (computePlanStarts g mapName robotPose now) robotPose
        (findClosestWaypoint (some g) computePlanStarts robotPose mapName now) ↔
      (∃ w, Collected (computePlanStarts g mapName robotPose now) w ∧
        g.distance robotPose w < maxDouble) ∧
      (Candidate (computePlanStarts g mapName robotPose now) 0 →
        ∃ w, Collected (computePlanStarts g mapName robotPose now) w ∧
          g.distance robotPose w ≤ g.distance robotPose 0) := by
  constructor
  · rintro ⟨w, hw, -, hleast⟩
    obtain ⟨hmem, hbound, -⟩ := closest_of_findClosestWaypoint hw
    exact ⟨⟨w, hmem, hbound⟩, fun h => ⟨w, hmem, hleast 0 h⟩⟩
  · rintro ⟨⟨v, hv, hbound⟩, hzero⟩
    obtain ⟨w, hw⟩ := exists_findClosestWaypoint hv hbound
    obtain ⟨hmem, -, hleast⟩ := closest_of_findClosestWaypoint hw
    refine ⟨w, hw, hmem.candidate, fun u hu => ?_⟩
    by_cases hu0 : u = 0
    · -- it may be a candidate without being collected
      subst hu0
      obtain ⟨u, hu, hle⟩ := hzero hu
      exact (hleast u hu).trans hle
    · exact hleast u (hu.collected hu0)

/-- One waypoint, and no lane. -/
def lonely (p : ℝ × ℝ) : Graph (ℝ × ℝ) where
  waypoints := [p]
  lanes := []
  ends := by simp

/-- The robot starts from the graph's first waypoint, and none is returned. -/
theorem waypoint_zero_lost :
    ¬ ∀ (g : Graph (ℝ × ℝ))
      (computePlanStarts : (g : Graph (ℝ × ℝ)) → String → Pose → ℤ → List (PlanStart g))
      (robotPose : Pose) (mapName : String) (now : ℤ),
      computePlanStarts g mapName robotPose now ≠ [] →
      IsClosest (computePlanStarts g mapName robotPose now) robotPose
        (findClosestWaypoint (some g) computePlanStarts robotPose mapName now) := by
  intro h
  -- the first waypoint of a graph that has one
  let starts (g : Graph (ℝ × ℝ)) (_ : String) (_ : Pose) (_ : ℤ) : List (PlanStart g) :=
    if hpos : 0 < g.waypoints.length then [⟨⟨0, hpos⟩, none⟩] else []
  have hstarts : starts (lonely 0) "Floor0" ⟨0, 0⟩ 0 = [⟨⟨0, one_pos⟩, none⟩] := dif_pos one_pos
  obtain ⟨w, hw, -⟩ := h (lonely 0) starts ⟨0, 0⟩ "Floor0" 0 (by rw [hstarts]; simp)
  obtain ⟨hmem, -⟩ := closest_of_findClosestWaypoint hw
  rw [hstarts] at hmem
  rcases hmem with ⟨hne, start, hstart, rfl⟩ | ⟨start, hstart, ln, hln, -⟩
  · cases List.mem_singleton.mp hstart
    exact hne rfl
  · cases List.mem_singleton.mp hstart
    cases hln

end EgbFleet.Paths

end
