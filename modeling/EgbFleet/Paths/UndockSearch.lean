import EgbFleet.Paths.Graph
import EgbFleet.Support.Breadth
import Mathlib.Data.Finset.Sort
import Mathlib.Data.Set.Card

/-!
# Paths — the undock search

`UndockAction::generate_undock_path` searches the traffic graph, breadth first, for a junction to
back up to: a waypoint that lanes join to three others.

What it finds is a simple path along lanes, to a junction than which none is nearer,
`undock_path_sound`.  Its warning says that there is none within `MAX_DEPTH` hops; but a waypoint
that far is passed over before it is tested, so a junction at exactly that distance is missed,
`search_complete_iff`.
-/

namespace EgbFleet.Paths

open Breadth

variable {P : Type}

/-! ### Junctions -/

/-- A lane leads from `v` to `w`. -/
def Graph.Joins (g : Graph P) (v w : ℕ) : Prop := ∃ lane ∈ g.lanes, lane.entry = v ∧ lane.exit = w

/-- Lanes join at least three waypoints to `w`, in either direction. -/
def Graph.Junction (g : Graph P) (w : ℕ) : Prop := 3 ≤ {v | g.Joins w v ∨ g.Joins v w}.ncard

/-- An iteration of the loop that counts the neighbours of `currentWp`. -/
def GraphLane.addNeighbors (currentWp : ℕ) (lane : GraphLane) (neighbors : Finset ℕ) : Finset ℕ :=
  let neighbors := if lane.entry = currentWp then insert lane.exit neighbors else neighbors
  if lane.exit = currentWp then insert lane.entry neighbors else neighbors

/-- `distinct_neighbors`. -/
def Graph.distinctNeighbors (g : Graph P) (currentWp : ℕ) : Finset ℕ :=
  g.lanes.foldl (fun neighbors lane => lane.addNeighbors currentWp neighbors) ∅

/-- `is_junction`. -/
def Graph.isJunction (g : Graph P) (currentWp : ℕ) : Bool :=
  3 ≤ (g.distinctNeighbors currentWp).card

theorem GraphLane.mem_addNeighbors {currentWp v : ℕ} {lane : GraphLane} {neighbors : Finset ℕ} :
    v ∈ lane.addNeighbors currentWp neighbors ↔
      v ∈ neighbors ∨ (lane.entry = currentWp ∧ lane.exit = v) ∨
        (lane.entry = v ∧ lane.exit = currentWp) := by
  unfold addNeighbors
  by_cases hentry : lane.entry = currentWp <;> by_cases hexit : lane.exit = currentWp <;>
    simp [hentry, hexit, eq_comm, or_comm]

theorem Graph.mem_distinctNeighbors {g : Graph P} {currentWp v : ℕ} :
    v ∈ g.distinctNeighbors currentWp ↔ g.Joins currentWp v ∨ g.Joins v currentWp := by
  have hfold (lanes : List GraphLane) (neighbors : Finset ℕ) :
      v ∈ lanes.foldl (fun neighbors lane => lane.addNeighbors currentWp neighbors) neighbors ↔
        v ∈ neighbors ∨ ∃ lane ∈ lanes, (lane.entry = currentWp ∧ lane.exit = v) ∨
          (lane.entry = v ∧ lane.exit = currentWp) := by
    induction lanes generalizing neighbors with
    | nil => simp
    | cons lane lanes ih => simp [ih, GraphLane.mem_addNeighbors, or_assoc]
  unfold distinctNeighbors Joins
  rw [hfold]
  simp only [Finset.notMem_empty, false_or, and_or_left, exists_or]

theorem Graph.isJunction_iff {g : Graph P} {w : ℕ} : g.isJunction w = true ↔ g.Junction w := by
  have hset : {v | g.Joins w v ∨ g.Joins v w} = ↑(g.distinctNeighbors w) := by
    ext v
    exact Graph.mem_distinctNeighbors.symm
  rw [Junction, hset, Set.ncard_coe_finset, isJunction, decide_eq_true_iff]

/-! ### The search -/

/-- `get_outgoing_lanes`. -/
def Graph.getOutgoingLanes (g : Graph P) (waypointIndex : ℕ) : List ℕ :=
  (List.range g.lanes.length).filter fun i => (g.getLane i).any (·.entry == waypointIndex)

/-- `unvisited_destinations`. -/
def Graph.unvisitedDestinations (g : Graph P) (visited : Finset ℕ) (currentWp : ℕ) : Finset ℕ :=
  (((g.getOutgoingLanes currentWp).filterMap g.getLane).map (·.exit)).toFinset.filter
    (· ∉ visited)

theorem Graph.mem_unvisitedDestinations {g : Graph P} {visited : Finset ℕ} {currentWp v : ℕ} :
    v ∈ g.unvisitedDestinations visited currentWp ↔ g.Joins currentWp v ∧ v ∉ visited := by
  simp only [unvisitedDestinations, getOutgoingLanes, Finset.mem_filter, List.mem_toFinset,
    List.mem_map, List.mem_filterMap, List.mem_filter, List.mem_range, Option.any_eq_true,
    beq_iff_eq, Joins]
  refine and_congr_left fun _ => ?_
  constructor
  · rintro ⟨lane, ⟨i, ⟨-, lane', hlane', hentry⟩, hlane⟩, rfl⟩
    cases hlane.symm.trans hlane'
    exact ⟨lane, List.mem_of_getElem? hlane, hentry, rfl⟩
  · rintro ⟨lane, hmem, hentry, rfl⟩
    obtain ⟨i, hi⟩ := List.mem_iff_getElem?.mp hmem
    obtain ⟨hlt, -⟩ := List.getElem?_eq_some_iff.mp hi
    exact ⟨lane, ⟨i, ⟨hlt, lane, hi, hentry⟩, hi⟩, rfl⟩

/-- `MAX_DEPTH`. -/
def maxDepth : ℕ := 5

/-- `bfs_queue` and `visited`. -/
structure Search where
  queue : List (Node ℕ)
  visited : Finset ℕ

/-- The search before its loop. -/
def Search.start (startWaypoint : ℕ) : Search where
  queue := [⟨startWaypoint, 0, [startWaypoint]⟩]
  visited := {startWaypoint}

/-- An iteration of the loop, or the path that is returned. -/
def Search.step (g : Graph P) (s : Search) : Search ⊕ List ℕ :=
  match s.queue with
  | [] => .inr []
  | current :: queue =>
      if maxDepth ≤ current.depth then .inl { s with queue }
      else if 0 < current.depth ∧ g.isJunction current.point = true then .inr current.path
      else
        let destinations := (g.unvisitedDestinations s.visited current.point).sort (· ≤ ·)
        .inl
          { queue := queue ++ destinations.map fun nextWp =>
              ⟨nextWp, current.depth + 1, current.path ++ [nextWp]⟩
            visited := destinations.foldl (fun visited nextWp => insert nextWp visited) s.visited }

/-- What an iteration of the loop can do. -/
inductive Search.Step (g : Graph P) (s : Search) : Search ⊕ List ℕ → Prop where
  | exhausted (hq : s.queue = []) : Step g s (.inr [])
  | drop {e : Node ℕ} {queue : List (Node ℕ)} (hq : s.queue = e :: queue)
      (hdepth : maxDepth ≤ e.depth) : Step g s (.inl { s with queue })
  | found {e : Node ℕ} {queue : List (Node ℕ)} (hq : s.queue = e :: queue)
      (hdepth : e.depth < maxDepth) (hpos : 0 < e.depth) (hjunction : g.Junction e.point) :
      Step g s (.inr e.path)
  | expand {e : Node ℕ} {queue : List (Node ℕ)} {new : List ℕ} {s' : Search}
      (hq : s.queue = e :: queue) (hdepth : e.depth < maxDepth)
      (htested : e.depth = 0 ∨ ¬ g.Junction e.point)
      (hnew : ∀ v, v ∈ new ↔ g.Joins e.point v ∧ v ∉ s.visited) (hnodup : new.Nodup)
      (hq' : s'.queue = queue ++ new.map e.next)
      (hvisited : ∀ v, v ∈ s'.visited ↔ v ∈ s.visited ∨ v ∈ new) : Step g s (.inl s')

theorem mem_foldl_insert {v : ℕ} {new : List ℕ} {visited : Finset ℕ} :
    v ∈ new.foldl (fun visited nextWp => insert nextWp visited) visited ↔
      v ∈ visited ∨ v ∈ new := by
  induction new generalizing visited with
  | nil => simp
  | cons w new ih => simp [ih, or_assoc, or_left_comm]

theorem Search.step_spec (g : Graph P) (s : Search) : s.Step g (s.step g) := by
  unfold step
  split
  · rename_i hq
    exact .exhausted hq
  · rename_i e queue hq
    by_cases hdepth : maxDepth ≤ e.depth
    · rw [if_pos hdepth]
      exact .drop hq hdepth
    · rw [if_neg hdepth]
      rw [not_le] at hdepth
      by_cases hfound : 0 < e.depth ∧ g.isJunction e.point = true
      · rw [if_pos hfound]
        exact .found hq hdepth hfound.1 (Graph.isJunction_iff.mp hfound.2)
      · rw [if_neg hfound]
        refine .expand hq hdepth ?_ ?_ (Finset.sort_nodup _ _) rfl fun v => mem_foldl_insert
        · by_cases hpos : e.depth = 0
          · exact .inl hpos
          · refine .inr fun hjunction => hfound ⟨Nat.pos_of_ne_zero hpos, ?_⟩
            exact Graph.isJunction_iff.mpr hjunction
        · intro v
          rw [Finset.mem_sort]
          exact Graph.mem_unvisitedDestinations

/-! ### Its end -/

/-- The waypoints lanes lead to. -/
def Graph.exits (g : Graph P) : Finset ℕ := (g.lanes.map (·.exit)).toFinset

theorem Graph.Joins.mem_exits {g : Graph P} {v w : ℕ} (h : g.Joins v w) : w ∈ g.exits := by
  obtain ⟨lane, hmem, -, rfl⟩ := h
  exact List.mem_toFinset.mpr (List.mem_map_of_mem hmem)

/-- An iteration visits a waypoint, or leaves a shorter queue. -/
theorem Search.step_decreases {g : Graph P} {s s' : Search} (h : s.step g = .inl s') :
    Prod.Lex (· < ·) (· < ·) ((g.exits \ s'.visited).card, s'.queue.length)
      ((g.exits \ s.visited).card, s.queue.length) := by
  have hstep := s.step_spec g
  rw [h] at hstep
  cases hstep with
  | drop hq =>
      refine .right _ ?_
      rw [hq]
      exact Nat.lt_succ_self _
  | @expand e queue new s' hq hdepth htested hnew hnodup hq' hvisited =>
      cases new with
      | nil =>
          -- nothing is new: the queue is shorter by its head
          have hsame : s'.visited = s.visited := by
            ext v
            simp [hvisited]
          rw [hsame, hq, hq']
          exact .right _ (by simp)
      | cons v new =>
          -- `v` is visited, and was not
          refine .left _ _ (Finset.card_lt_card ?_)
          obtain ⟨hjoins, hv⟩ := (hnew v).mp List.mem_cons_self
          refine Finset.ssubset_iff_subset_ne.mpr ⟨fun w hw => ?_, fun heq => ?_⟩
          · rw [Finset.mem_sdiff, hvisited] at hw
            exact Finset.mem_sdiff.mpr ⟨hw.1, fun hmem => hw.2 (.inl hmem)⟩
          · have hmem : v ∈ g.exits \ s'.visited := by
              rw [heq]
              exact Finset.mem_sdiff.mpr ⟨hjoins.mem_exits, hv⟩
            rw [Finset.mem_sdiff, hvisited] at hmem
            exact hmem.2 (.inr List.mem_cons_self)

/-- The loop. -/
def Search.run (g : Graph P) (s : Search) : List ℕ :=
  match _h : s.step g with
  | .inl s' => s'.run g
  | .inr path => path
termination_by ((g.exits \ s.visited).card, s.queue.length)
decreasing_by exact Search.step_decreases _h

/-- `generate_undock_path`. -/
def Graph.generateUndockPath (g : Graph P) (startWaypoint : ℕ) : List ℕ :=
  (Search.start startWaypoint).run g

/-- From `s` the loop comes to its end: it puts the waypoints `pushed` into the queue, and returns
`path`. -/
inductive Search.Ends (g : Graph P) : Search → List ℕ → List ℕ → Prop where
  | done {s : Search} {path : List ℕ} (h : s.step g = .inr path) : Ends g s [] path
  | more {s s' : Search} {new : List (Node ℕ)} {pushed path : List ℕ}
      (h : s.step g = .inl s') (hnew : s'.queue = s.queue.tail ++ new)
      (ends : Ends g s' pushed path) : Ends g s (new.map Node.point ++ pushed) path

theorem Search.exists_ends (g : Graph P) (s : Search) : ∃ pushed, s.Ends g pushed (s.run g) := by
  induction s using Search.run.induct g with
  | case1 s s' h ih =>
      obtain ⟨pushed, hends⟩ := ih
      have hnew : ∃ new, s'.queue = s.queue.tail ++ new := by
        have hstep := s.step_spec g
        rw [h] at hstep
        cases hstep with
        | drop hq => exact ⟨[], by simp [hq]⟩
        | expand hq _ _ _ _ hq' => exact ⟨_, by rw [hq, hq', List.tail_cons]⟩
      obtain ⟨new, hnew⟩ := hnew
      have hrun : s.run g = s'.run g := by rw [Search.run]; split <;> simp_all
      rw [hrun]
      exact ⟨_, .more h hnew hends⟩
  | case2 s path h =>
      have hrun : s.run g = path := by rw [Search.run]; split <;> simp_all
      rw [hrun]
      exact ⟨[], .done h⟩

/-- No waypoint is put into the queue twice, or once it has been visited. -/
theorem Search.Ends.once {g : Graph P} {s : Search} {pushed path : List ℕ}
    (h : s.Ends g pushed path) : pushed.Nodup ∧ ∀ v ∈ pushed, v ∉ s.visited := by
  induction h with
  | done => exact ⟨List.nodup_nil, nofun⟩
  | @more s s' nodes pushed path h hnodes _ ih =>
      obtain ⟨hpushed, hunvisited⟩ := ih
      have hstep := s.step_spec g
      rw [h] at hstep
      cases hstep with
      | drop hq =>
          have hnil : nodes = [] := by simpa [hq] using hnodes
          rw [hnil]
          exact ⟨hpushed, hunvisited⟩
      | @expand e queue new s' hq hdepth htested hnew hnodup hq' hvisited =>
          have hpoints : nodes.map Node.point = new := by
            rw [hq, List.tail_cons, hq', List.append_cancel_left_eq] at hnodes
            rw [← hnodes, List.map_map]
            exact List.map_id new
          rw [hpoints]
          refine ⟨hnodup.append hpushed fun v hv hv' => ?_, fun v hv => ?_⟩
          · exact hunvisited v hv' ((hvisited v).mpr (.inr hv))
          · rcases List.mem_append.mp hv with hv | hv
            · exact ((hnew v).mp hv).2
            · exact fun hmem => hunvisited v hv ((hvisited v).mpr (.inl hmem))

/-! ### What it returns -/

/-- A simple path along lanes, from the start to another waypoint: a junction than which none is
nearer. -/
structure UndockPath (g : Graph P) (startWaypoint : ℕ) (path : List ℕ) : Prop where
  head : path.head? = some startWaypoint
  lanes : path.IsChain g.Joins
  simple : path.Nodup
  junction : ∃ w, path.getLast? = some w ∧ w ≠ startWaypoint ∧ g.Junction w
  nearest : ∀ n w, Hops g.Joins startWaypoint n w → w ≠ startWaypoint → g.Junction w →
    path.length ≤ n + 1

/-- Some junction other than the start is at most `n` hops from it. -/
def Graph.JunctionWithin (g : Graph P) (startWaypoint n : ℕ) : Prop :=
  ∃ m w, m ≤ n ∧ Hops g.Joins startWaypoint m w ∧ w ≠ startWaypoint ∧ g.Junction w

/-- The empty path says that no junction is nearer than `MAX_DEPTH`; any other path is as it should
be, and says that one is. -/
inductive Outcome (g : Graph P) (startWaypoint : ℕ) : List ℕ → Prop where
  | failed (hnone : ¬ g.JunctionWithin startWaypoint (maxDepth - 1)) : Outcome g startWaypoint []
  | found {path : List ℕ} (hpath : UndockPath g startWaypoint path)
      (hsome : g.JunctionWithin startWaypoint (maxDepth - 1)) : Outcome g startWaypoint path

/-- What holds at the head of the loop. -/
abbrev Search.Ok (g : Graph P) (startWaypoint : ℕ) (s : Search) : Prop :=
  Inv g.Joins startWaypoint g.Junction maxDepth (· ∈ s.visited) s.queue

theorem Search.ok_start (g : Graph P) (startWaypoint : ℕ) :
    (Search.start startWaypoint).Ok g startWaypoint := by
  have hinit : Inv g.Joins startWaypoint g.Junction maxDepth (· = startWaypoint)
      [⟨startWaypoint, 0, [startWaypoint]⟩] := .init startWaypoint
  simpa [Search.Ok, Search.start] using hinit

variable {g : Graph P} {startWaypoint : ℕ}

theorem Search.Ok.step {s s' : Search} (hs : s.Ok g startWaypoint) (h : s.step g = .inl s') :
    s'.Ok g startWaypoint := by
  have hstep := s.step_spec g
  rw [h] at hstep
  unfold Search.Ok at hs ⊢
  cases hstep with
  | drop hq hdepth =>
      rw [hq] at hs
      exact hs.drop hdepth
  | expand hq hdepth htested hnew _ hq' hvisited =>
      rw [hq] at hs
      rw [hq']
      have htested' := htested.imp_left (hs.valid _ List.mem_cons_self).point_eq
      simpa only [hvisited] using hs.expand hdepth htested' hnew

theorem Search.Ok.outcome {s : Search} {path : List ℕ} (hs : s.Ok g startWaypoint)
    (h : s.step g = .inr path) : Outcome g startWaypoint path := by
  have hstep := s.step_spec g
  rw [h] at hstep
  unfold Search.Ok at hs
  cases hstep with
  | exhausted hq =>
      refine .failed ?_
      rintro ⟨m, w, hm, hhops, hne, hj⟩
      exact hs.exhausted hq hhops (Nat.lt_of_le_pred (by decide) hm) hne hj
  | @found e queue hq hdepth hpos hjunction =>
      rw [hq] at hs
      have hvalid := hs.valid e List.mem_cons_self
      have hne := hvalid.point_ne hpos
      refine .found ⟨hvalid.head, hvalid.chain, hvalid.nodup, ?_, ?_⟩ ?_
      · exact ⟨e.point, hvalid.last, hne, hjunction⟩
      · intro n w hhops hne' hj
        rw [hvalid.length]
        exact Nat.succ_le_succ (hs.nearest hdepth.le hhops hne' hj)
      · exact ⟨e.depth, e.point, Nat.le_pred_of_lt hdepth, hvalid.hops, hne, hjunction⟩

theorem Search.Ok.run {s : Search} (hs : s.Ok g startWaypoint) :
    Outcome g startWaypoint (s.run g) := by
  obtain ⟨pushed, hends⟩ := s.exists_ends g
  generalize s.run g = path at hends
  induction hends with
  | done h => exact hs.outcome h
  | more h _ _ ih => exact ih (hs.step h)

theorem outcome_generateUndockPath (g : Graph P) (startWaypoint : ℕ) :
    Outcome g startWaypoint (g.generateUndockPath startWaypoint) :=
  (Search.ok_start g startWaypoint).run

/-- **The undock path.**  The search comes to its end, having put no waypoint into the queue twice;
and if it finds a path, that is a simple one along lanes, to a nearest junction. -/
theorem undock_path_sound (g : Graph P) (startWaypoint : ℕ) :
    (∃ pushed, (Search.start startWaypoint).Ends g pushed (g.generateUndockPath startWaypoint) ∧
      (startWaypoint :: pushed).Nodup) ∧
    (g.generateUndockPath startWaypoint ≠ [] →
      UndockPath g startWaypoint (g.generateUndockPath startWaypoint)) := by
  constructor
  · obtain ⟨pushed, hends⟩ := (Search.start startWaypoint).exists_ends g
    obtain ⟨hnodup, hunvisited⟩ := hends.once
    refine ⟨pushed, hends, List.nodup_cons.mpr ⟨fun hmem => ?_, hnodup⟩⟩
    exact hunvisited _ hmem (Finset.mem_singleton_self _)
  · intro hne
    have houtcome := outcome_generateUndockPath g startWaypoint
    generalize g.generateUndockPath startWaypoint = path at hne houtcome ⊢
    cases houtcome with
    | failed => exact absurd rfl hne
    | found hpath => exact hpath

/-- The search fails just if no junction is nearer than `MAX_DEPTH`. -/
theorem generateUndockPath_eq_nil :
    g.generateUndockPath startWaypoint = [] ↔ ¬ g.JunctionWithin startWaypoint (maxDepth - 1) := by
  have houtcome := outcome_generateUndockPath g startWaypoint
  generalize g.generateUndockPath startWaypoint = path at houtcome ⊢
  cases houtcome with
  | failed hnone => exact iff_of_true rfl hnone
  | found hpath hsome =>
      refine iff_of_false ?_ (not_not.mpr hsome)
      rintro rfl
      cases hpath.head

/-- **The bound it reports.**  That the search fails only if no junction is within `MAX_DEPTH` hops,
as its warning says, is so except where the nearest one is at exactly that distance. -/
theorem search_complete_iff (g : Graph P) (startWaypoint : ℕ) :
    (g.generateUndockPath startWaypoint = [] → ¬ g.JunctionWithin startWaypoint maxDepth) ↔
      ¬ (g.JunctionWithin startWaypoint maxDepth ∧
        ∀ n < maxDepth, ¬ g.JunctionWithin startWaypoint n) := by
  rw [generateUndockPath_eq_nil]
  constructor
  · rintro h ⟨hwithin, hnearer⟩
    exact h (hnearer (maxDepth - 1) (by decide)) hwithin
  · intro h hnone hwithin
    refine h ⟨hwithin, ?_⟩
    rintro n hn ⟨m, w, hm, hw⟩
    exact hnone ⟨m, w, hm.trans (Nat.le_pred_of_lt hn), hw⟩

/-- A lane from each waypoint to the next, as far as the sixth, which two more lanes join. -/
def longWay : Graph Unit where
  waypoints := List.replicate 8 ()
  lanes := [⟨0, 1, none, none⟩, ⟨1, 2, none, none⟩, ⟨2, 3, none, none⟩, ⟨3, 4, none, none⟩,
    ⟨4, 5, none, none⟩, ⟨5, 6, none, none⟩, ⟨7, 5, none, none⟩]
  ends := by decide

theorem le_of_hops_longWay {n w : ℕ} (h : Hops longWay.Joins 0 n w) : w ≤ n := by
  induction h with
  | refl => exact le_rfl
  | @step n b c hops hjoins ih =>
      have hstep : ∀ lane ∈ longWay.lanes, lane.exit ≤ lane.entry + 1 := by decide
      obtain ⟨lane, hmem, rfl, rfl⟩ := hjoins
      exact (hstep lane hmem).trans (Nat.succ_le_succ ih)

theorem hops_longWay {n : ℕ} (hn : n ≤ 5) : Hops longWay.Joins 0 n n := by
  induction n with
  | zero => exact .refl
  | succ n ih =>
      have hlanes : ∀ n < 5, ⟨n, n + 1, none, none⟩ ∈ longWay.lanes := by decide
      exact .step (ih (Nat.le_of_succ_le hn)) ⟨_, hlanes n hn, rfl, rfl⟩

/-- The junction is five hops away, and the search fails. -/
theorem fifth_hop_missed :
    ¬ ∀ (g : Graph Unit) (startWaypoint : ℕ), g.generateUndockPath startWaypoint = [] →
      ¬ g.JunctionWithin startWaypoint maxDepth := by
  intro h
  have hfar : longWay.generateUndockPath 0 = [] := by
    rw [generateUndockPath_eq_nil]
    rintro ⟨m, w, hm, hhops, -, hj⟩
    have hw : w ≤ 4 := (le_of_hops_longWay hhops).trans hm
    have hnone : ∀ w ≤ 4, longWay.isJunction w = false := by decide
    rw [← Graph.isJunction_iff, hnone w hw] at hj
    cases hj
  have hjunction : longWay.Junction 5 := Graph.isJunction_iff.mp (by decide)
  exact h longWay 0 hfar ⟨5, 5, le_rfl, hops_longWay le_rfl, by decide, hjunction⟩

end EgbFleet.Paths
