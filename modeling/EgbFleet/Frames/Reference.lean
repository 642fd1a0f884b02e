import EgbFleet.Frames.Estimation
import EgbFleet.Support.Results
import EgbFleet.Support.Tables
import Mathlib.Data.String.Basic

/-!
# Frames — reference coordinates

`parse_transformations` reads the reference points of each level from the configuration, and has the
transform of a level estimated where it has as many points in either coordinates.

Entries without two components are dropped from either list, for itself.

* In exact arithmetic every transform can be undone, and no division by zero occurs, exactly if no
  estimated level with several points has only one place among them (`transforms_invertible_iff`).
  Which sums of distances vanish in doubles is a matter of rounding, and not settled here.
* The points of a pair are from one position exactly if the same positions are dropped from both
  lists (`pairs_same_position_iff`).
-/

noncomputable section

namespace EgbFleet.Frames

open Plane

/-- An entry of a list of points: its components, `none` for one that is no number. -/
abbrev PointNode := List (Option ℝ)

/-- A level of `reference_coordinates`. -/
structure LevelNode where
  rmf : Option (List PointNode)
  robot : Option (List PointNode)

/-- What `parse_transformations` can throw: yaml-cpp's for a component that is no number, and that
of `estimate_transformation`. -/
inductive ParseError where
  | badConversion
  | invalidArgument (what : String)

/-- `as<double>`. -/
def asDouble : Option ℝ → Except ParseError ℝ
  | some x => .ok x
  | none => .error .badConversion

/-- The loop over the points of a list. -/
def readPoints : List PointNode → Except ParseError (List (ℝ × ℝ))
  | [] => .ok []
  | (x :: y :: _) :: points => do
      let x ← asDouble x
      let y ← asDouble y
      let coords ← readPoints points
      return (x, y) :: coords
  | _ :: points => readPoints points

/-- The points a level is estimated from; `none` for a level that is passed over. -/
def LevelNode.coords (level : LevelNode) :
    Except ParseError (Option (List (ℝ × ℝ) × List (ℝ × ℝ))) :=
  match level.rmf, level.robot with
  | some rmf, some robot => do
      let rmfCoords ← readPoints rmf
      let robotCoords ← readPoints robot
      if rmfCoords.isEmpty ∨ robotCoords.isEmpty ∨ rmfCoords.length ≠ robotCoords.length then
        return none
      else return some (rmfCoords, robotCoords)
  | _, _ => return none

section

variable (jacobiSVD : Matrix (Fin 2) (Fin 2) ℝ → JacobiSVD)

/-- An iteration of the loop over the levels. -/
def addLevel (transforms : SortedTable String Estimate) (node : String × LevelNode) :
    Except ParseError (SortedTable String Estimate) := do
  match ← node.2.coords with
  | none => return transforms
  | some (rmfCoords, robotCoords) =>
      match estimateTransformation jacobiSVD rmfCoords robotCoords with
      | .ok tf => return transforms.emplace node.1 tf
      | .error what => throw (.invalidArgument what)

/-- `parse_transformations`, of the levels of `reference_coordinates`. -/
def parseTransformations (referenceCoordinates : Option (List (String × LevelNode))) :
    Except ParseError (SortedTable String Estimate) :=
  match referenceCoordinates with
  | none => .ok .empty
  | some levels => levels.foldlM (addLevel jacobiSVD) .empty

end

/-! ### Reading a level -/

/-- A level that has passed the checks has points, as many in either coordinates. -/
theorem LevelNode.coords_eq_some {level : LevelNode} {rmfCoords robotCoords : List (ℝ × ℝ)}
    (h : level.coords = .ok (some (rmfCoords, robotCoords))) :
    ∃ rmf robot, level.rmf = some rmf ∧ level.robot = some robot ∧
      readPoints rmf = .ok rmfCoords ∧ readPoints robot = .ok robotCoords ∧
      rmfCoords.length = robotCoords.length ∧ rmfCoords ≠ [] := by
  obtain ⟨rmf, robot⟩ := level
  cases rmf with
  | none => cases h
  | some rmf =>
      cases robot with
      | none => cases h
      | some robot =>
          simp only [coords, Except.bind_eq_ok] at h
          obtain ⟨ps, hps, qs, hqs, h⟩ := h
          split_ifs at h with hskip
          · cases h
          · cases h
            simp only [not_or, not_not, List.isEmpty_iff] at hskip
            exact ⟨rmf, robot, rfl, rfl, hps, hqs, hskip.2.2, hskip.1⟩

/-! ### The transforms of the table -/

/-- The points of a level that passes the checks. -/
def LevelNode.accepted (level : LevelNode) : Option (List (ℝ × ℝ) × List (ℝ × ℝ)) :=
  level.coords.toOption.join

theorem LevelNode.accepted_eq_some {level : LevelNode} {c : List (ℝ × ℝ) × List (ℝ × ℝ)} :
    level.accepted = some c ↔ level.coords = .ok (some c) := by
  rw [accepted]
  cases level.coords with
  | error e => simp [Except.toOption]
  | ok o => simp [Except.toOption]

/-- The points the transform of a name is from: those of the first level of that name that passes
the checks. -/
def stored (levels : List (String × LevelNode)) (levelName : String) :
    Option (List (ℝ × ℝ) × List (ℝ × ℝ)) :=
  levels.findSome? fun node => if node.1 = levelName then node.2.accepted else none

/-- The transform can be undone: it is a rotation, a positive scale and a translation. -/
def Estimate.Invertible (e : Estimate) : Prop :=
  ∃ T : Transformation, e = ⟨T.rotation, some T.scale, some T.translation⟩

/-- Of a single pair, or of points two of which are apart, there is a scale; it is positive for a
single pair, or if the robot's points are apart, too. -/
theorem estimate_total (jacobiSVD : Matrix (Fin 2) (Fin 2) ℝ → JacobiSVD)
    {rmfCoords robotCoords : List (ℝ × ℝ)}
    (hlen : rmfCoords.length = robotCoords.length) (hne : rmfCoords ≠ []) :
    ∃ e, estimateTransformation jacobiSVD rmfCoords robotCoords = .ok e ∧
      (e.scale ≠ none ↔ rmfCoords.length = 1 ∨ Scattered rmfCoords) ∧
      (e.Invertible ↔ rmfCoords.length = 1 ∨ Scattered rmfCoords ∧ Scattered robotCoords) := by
  by_cases hone : rmfCoords.length = 1
  · obtain ⟨p, rfl⟩ := List.length_eq_one_iff.mp hone
    obtain ⟨q, rfl⟩ := List.length_eq_one_iff.mp (hlen ▸ hone)
    refine ⟨_, rfl, by simp, ?_⟩
    simp only [List.length_singleton, true_or, iff_true]
    exact ⟨⟨0, 1, q - p, one_pos⟩, rfl⟩
  · have htwo : 2 ≤ rmfCoords.length := by
      have := List.length_pos_iff.mpr hne
      omega
    refine ⟨_, estimate_of_length hlen htwo, ?_⟩
    by_cases hrmf : Scattered rmfCoords
    · have hpos := spread_pos_iff.mpr hrmf
      simp only [quotient, hpos.ne', hone, hrmf, if_false, false_or, true_and, Option.map_some]
      refine ⟨by simp, ?_⟩
      constructor
      · rintro ⟨T, hT⟩
        simp only [Estimate.mk.injEq, Option.some.injEq] at hT
        have hscale := T.scale_pos
        rw [← hT.2.1, div_pos_iff_of_pos_right hpos] at hscale
        exact spread_pos_iff.mp hscale
      · intro hrobot
        exact ⟨⟨_, _, _, div_pos (spread_pos_iff.mpr hrobot) hpos⟩, rfl⟩
    · have hzero := spread_eq_zero_iff.mpr hrmf
      simp only [quotient, hzero, hone, hrmf, if_true, false_or, false_and, Option.map_none]
      refine ⟨by simp, ?_⟩
      simp only [iff_false]
      rintro ⟨T, hT⟩
      simp at hT

section

variable {jacobiSVD : Matrix (Fin 2) (Fin 2) ℝ → JacobiSVD}

/-- A level is passed over, or its estimate is emplaced. -/
theorem addLevel_cases {t t' : SortedTable String Estimate} {node : String × LevelNode}
    (h : addLevel jacobiSVD t node = .ok t') :
    node.2.accepted = none ∧ t' = t ∨
      ∃ c e, node.2.accepted = some c ∧ estimateTransformation jacobiSVD c.1 c.2 = .ok e ∧
        t' = t.emplace node.1 e := by
  obtain ⟨o, ho, h⟩ := Except.bind_eq_ok.mp h
  cases o with
  | none =>
      cases h
      exact .inl ⟨by rw [LevelNode.accepted, ho]; rfl, rfl⟩
  | some c =>
      obtain ⟨-, -, -, -, -, -, hlen, hne⟩ := LevelNode.coords_eq_some ho
      obtain ⟨e, he, -⟩ := estimate_total jacobiSVD hlen hne
      simp only [he] at h
      cases h
      exact .inr ⟨c, e, LevelNode.accepted_eq_some.mpr ho, he, rfl⟩

/-- The table holds the estimates of the points stored. -/
theorem find_levels {levels : List (String × LevelNode)} {t t' : SortedTable String Estimate}
    (h : levels.foldlM (addLevel jacobiSVD) t = .ok t') (levelName : String) :
    t'.find levelName = (t.find levelName).or ((stored levels levelName).bind fun c =>
      (estimateTransformation jacobiSVD c.1 c.2).toOption) := by
  induction levels generalizing t with
  | nil =>
      cases h
      simp [stored]
  | cons node levels ih =>
      rw [List.foldlM_cons] at h
      obtain ⟨t₁, hstep, hrest⟩ := Except.bind_eq_ok.mp h
      rw [ih hrest]
      rcases addLevel_cases hstep with ⟨hskip, rfl⟩ | ⟨c, e, haccepted, he, rfl⟩
      · simp [stored, hskip]
      · rw [SortedTable.find_emplace, Option.or_assoc]
        congr 1
        by_cases hname : node.1 = levelName
        · -- the first of its name that passes the checks is the one stored
          subst hname
          simp [stored, haccepted, he, Except.toOption]
        · rw [SortedTable.lookup_cons_of_ne (Ne.symm hname)]
          simp [stored, hname]

end

/-- No division by zero occurs, and every transform of the table can be undone. -/
def AllInvertible (jacobiSVD : Matrix (Fin 2) (Fin 2) ℝ → JacobiSVD)
    (levels : List (String × LevelNode)) (t : SortedTable String Estimate) : Prop :=
  (∀ node ∈ levels, ∀ c e, node.2.accepted = some c →
    estimateTransformation jacobiSVD c.1 c.2 = .ok e → e.scale ≠ none) ∧
  ∀ levelName e, t.find levelName = some e → e.Invertible

theorem accepted_of_stored {levels : List (String × LevelNode)} {levelName : String}
    {c : List (ℝ × ℝ) × List (ℝ × ℝ)} (h : stored levels levelName = some c) :
    ∃ node ∈ levels, node.2.accepted = some c := by
  obtain ⟨node, hnode, hc⟩ := List.exists_of_findSome?_eq_some h
  split_ifs at hc
  exact ⟨node, hnode, hc⟩

/-- In exact arithmetic all transforms can be undone exactly if the RMF points of each level that
passes the checks are a single one or two of them are apart, and of those stored the robot's points,
too. -/
theorem transforms_invertible_iff (jacobiSVD : Matrix (Fin 2) (Fin 2) ℝ → JacobiSVD)
    (referenceCoordinates : Option (List (String × LevelNode))) (t : SortedTable String Estimate)
    (h : parseTransformations jacobiSVD referenceCoordinates = .ok t) :
    let levels := referenceCoordinates.getD []
    AllInvertible jacobiSVD levels t ↔
      (∀ node ∈ levels, ∀ c, node.2.accepted = some c → c.1.length = 1 ∨ Scattered c.1) ∧
        ∀ levelName c, stored levels levelName = some c → c.1.length = 1 ∨ Scattered c.2 := by
  intro levels
  have hlevels : levels.foldlM (addLevel jacobiSVD) .empty = .ok t := by
    cases referenceCoordinates <;> exact h
  have hfind : ∀ levelName, t.find levelName = (stored levels levelName).bind fun c =>
      (estimateTransformation jacobiSVD c.1 c.2).toOption :=
    fun levelName => (find_levels hlevels levelName).trans Option.none_or
  have htotal : ∀ node ∈ levels, ∀ c, node.2.accepted = some c →
      ∃ e, estimateTransformation jacobiSVD c.1 c.2 = .ok e ∧
        (e.scale ≠ none ↔ c.1.length = 1 ∨ Scattered c.1) ∧
        (e.Invertible ↔ c.1.length = 1 ∨ Scattered c.1 ∧ Scattered c.2) := by
    intro node _ c hc
    obtain ⟨-, -, -, -, -, -, hlen, hne⟩ :=
      LevelNode.coords_eq_some (LevelNode.accepted_eq_some.mp hc)
    exact estimate_total jacobiSVD hlen hne
  constructor
  · rintro ⟨hdivision, hinvertible⟩
    constructor
    · intro node hnode c hc
      obtain ⟨e, he, hscale, -⟩ := htotal node hnode c hc
      exact hscale.mp (hdivision node hnode c e hc he)
    · intro levelName c hc
      obtain ⟨node, hnode, haccepted⟩ := accepted_of_stored hc
      obtain ⟨e, he, -, hiff⟩ := htotal node hnode c haccepted
      have hentry : t.find levelName = some e := by
        rw [hfind, hc, Option.bind_some, he]
        rfl
      exact (hiff.mp (hinvertible levelName e hentry)).imp_right And.right
  · rintro ⟨hrmf, hrobot⟩
    constructor
    · intro node hnode c e hc he
      obtain ⟨e', he', hscale, -⟩ := htotal node hnode c hc
      rw [he] at he'
      cases he'
      exact hscale.mpr (hrmf node hnode c hc)
    · intro levelName e hentry
      rw [hfind, Option.bind_eq_some_iff] at hentry
      obtain ⟨c, hc, hok⟩ := hentry
      obtain ⟨node, hnode, haccepted⟩ := accepted_of_stored hc
      obtain ⟨e', he', -, hiff⟩ := htotal node hnode c haccepted
      rw [he'] at hok
      cases hok
      refine hiff.mpr ?_
      rcases hrmf node hnode c haccepted with hone | hscattered
      · exact .inl hone
      · exact (hrobot levelName c hc).imp_right fun h => ⟨hscattered, h⟩

/-! ### Pairs of points -/

/-- The positions of the entries that are not dropped. -/
def positions (points : List PointNode) : List ℕ := points.findIdxs fun pt => 2 ≤ pt.length

/-- The point read from an entry. -/
inductive ReadFrom (points : List PointNode) : ℕ → ℝ × ℝ → Prop where
  | entry {j : ℕ} {x y : ℝ} {rest : List (Option ℝ)}
      (h : points[j]? = some (some x :: some y :: rest)) : ReadFrom points j (x, y)

theorem ReadFrom.cons {points : List PointNode} {j : ℕ} {p : ℝ × ℝ} (h : ReadFrom points j p)
    (pt : PointNode) : ReadFrom (pt :: points) (j + 1) p := by
  cases h with
  | entry h => exact .entry (by simpa using h)

theorem positions_cons (pt : PointNode) (points : List PointNode) :
    positions (pt :: points) =
      if 2 ≤ pt.length then 0 :: (positions points).map (· + 1)
      else (positions points).map (· + 1) := by
  simp only [positions, List.findIdxs_cons, zero_add, List.findIdxs_start (s := 1),
    decide_eq_true_eq]

theorem forall₂_readFrom_cons {points : List PointNode} {js : List ℕ} {coords : List (ℝ × ℝ)}
    (h : List.Forall₂ (ReadFrom points) js coords) (pt : PointNode) :
    List.Forall₂ (ReadFrom (pt :: points)) (js.map (· + 1)) coords := by
  rw [List.forall₂_map_left_iff]
  exact h.imp fun _ _ hread => hread.cons pt

theorem asDouble_eq_ok {o : Option ℝ} {x : ℝ} (h : asDouble o = .ok x) : o = some x := by
  cases o with
  | none => cases h
  | some y =>
      cases h
      rfl

/-- The points read are those of the entries that are not dropped, in order. -/
theorem readPoints_positions {points : List PointNode} {coords : List (ℝ × ℝ)}
    (h : readPoints points = .ok coords) :
    List.Forall₂ (ReadFrom points) (positions points) coords := by
  induction points generalizing coords with
  | nil =>
      cases h
      exact .nil
  | cons pt points ih =>
      rw [positions_cons]
      match pt, h with
      | [], h => exact forall₂_readFrom_cons (ih h) []
      | [x], h => exact forall₂_readFrom_cons (ih h) [x]
      | x :: y :: rest, h =>
          rw [readPoints] at h
          simp only [Except.bind_eq_ok] at h
          obtain ⟨x', hx, y', hy, coords', hrest, h⟩ := h
          cases h
          obtain rfl := asDouble_eq_ok hx
          obtain rfl := asDouble_eq_ok hy
          rw [if_pos (by simp)]
          exact .cons (.entry rfl) (forall₂_readFrom_cons (ih hrest) _)

/-- The entry has the components a point needs. -/
def Complete (points : List PointNode) (j : ℕ) : Prop := ∃ pt, points[j]? = some pt ∧ 2 ≤ pt.length

theorem mem_positions {points : List PointNode} {j : ℕ} :
    j ∈ positions points ↔ Complete points j := by
  rw [positions, List.mem_findIdxs_iff_exists_getElem_pos]
  simp [Complete, List.getElem?_eq_some_iff]

theorem positions_eq_iff {points points' : List PointNode} :
    positions points = positions points' ↔ ∀ j, Complete points j ↔ Complete points' j := by
  simp only [← mem_positions]
  constructor
  · intro h j
    rw [h]
  · intro h
    exact List.pairwise_findIdxs.eq_of_mem_iff List.pairwise_findIdxs h

/-- Each pair `estimate_transformation` is given is of two entries at one position. -/
def PairedByPosition (rmf robot : List PointNode) (rmfCoords robotCoords : List (ℝ × ℝ)) : Prop :=
  ∀ (i : ℕ) (pair : (ℝ × ℝ) × (ℝ × ℝ)), (rmfCoords.zip robotCoords)[i]? = some pair →
    ∃ j, (positions rmf)[i]? = some j ∧ (positions robot)[i]? = some j ∧
      ReadFrom rmf j pair.1 ∧ ReadFrom robot j pair.2

theorem readFrom_of_getElem? {points : List PointNode} {coords : List (ℝ × ℝ)} {i j : ℕ}
    {p : ℝ × ℝ} (h : readPoints points = .ok coords) (hj : (positions points)[i]? = some j)
    (hp : coords[i]? = some p) : ReadFrom points j p := by
  obtain ⟨hi, rfl⟩ := List.getElem?_eq_some_iff.mp hj
  obtain ⟨hi', rfl⟩ := List.getElem?_eq_some_iff.mp hp
  exact (readPoints_positions h).get hi hi'

/-- Each pair of points is from one position, exactly if just the same positions are dropped from
both lists. -/
theorem pairs_same_position_iff (level : LevelNode) (rmf robot : List PointNode)
    (rmfCoords robotCoords : List (ℝ × ℝ)) (hrmf : level.rmf = some rmf)
    (hrobot : level.robot = some robot)
    (h : level.coords = .ok (some (rmfCoords, robotCoords))) :
    PairedByPosition rmf robot rmfCoords robotCoords ↔
      ∀ j, Complete rmf j ↔ Complete robot j := by
  obtain ⟨rmf', robot', hrmf', hrobot', hread, hread', hlen, -⟩ := LevelNode.coords_eq_some h
  obtain rfl : rmf = rmf' := Option.some.inj (hrmf.symm.trans hrmf')
  obtain rfl : robot = robot' := Option.some.inj (hrobot.symm.trans hrobot')
  have hcount := (readPoints_positions hread).length_eq
  have hcount' := (readPoints_positions hread').length_eq
  rw [← positions_eq_iff]
  constructor
  · intro hpairs
    refine List.ext_getElem? fun i => ?_
    by_cases hi : i < rmfCoords.length
    · obtain ⟨j, hj, hj', -⟩ := hpairs i (rmfCoords[i], robotCoords[i])
        (List.getElem?_eq_some_iff.mpr ⟨by simpa [← hlen] using hi, by simp⟩)
      rw [hj, hj']
    · rw [List.getElem?_eq_none (by omega), List.getElem?_eq_none (by omega)]
  · -- the points read are those of the positions that are not dropped, in order
    intro heq i pair hpair
    obtain ⟨hp, hq⟩ := List.getElem?_zip_eq_some.mp hpair
    have hi : i < (positions rmf).length := by
      rw [hcount]
      exact (List.getElem?_eq_some_iff.mp hp).1
    have hj : (positions rmf)[i]? = some (positions rmf)[i] := List.getElem?_eq_getElem hi
    refine ⟨_, hj, heq ▸ hj, readFrom_of_getElem? hread hj hp, ?_⟩
    exact readFrom_of_getElem? hread' (heq ▸ hj) hq

/-- The second entry is dropped from both lists. -/
theorem pairs_same_position_two :
    PairedByPosition [[some 1, some 2], [some 0]] [[some 3, some 4], []] [(1, 2)] [(3, 4)] ↔
      ∀ j, Complete [[some 1, some 2], [some 0]] j ↔ Complete [[some 3, some 4], []] j :=
  pairs_same_position_iff
    ⟨some [[some 1, some 2], [some 0]], some [[some 3, some 4], []]⟩ _ _ _ _ rfl rfl rfl

/-- The first entry is dropped from the one list, and the second from the other. -/
theorem different_entries_dropped :
    (⟨some [[], [some 1, some 2]], some [[some 3, some 4], []]⟩ : LevelNode).coords =
        .ok (some ([(1, 2)], [(3, 4)])) ∧
      ¬ PairedByPosition [[], [some 1, some 2]] [[some 3, some 4], []] [(1, 2)] [(3, 4)] := by
  refine ⟨rfl, fun h => ?_⟩
  obtain ⟨j, hj, hj', -⟩ := h 0 _ rfl
  simp [positions] at hj hj'
  omega

end EgbFleet.Frames

end
