import EgbFleet.Navigation.Standing

/-!
# Navigation — an arrival is a success

`arrival_is_success`: where the robot accepts the goal of every path it is given (`Accepted`),
RMF's `path_finished_callback` of a path with waypoints is called only after `status_callback` has
found the path's own goal `SUCCEEDED`, and never if it has found it failed; the failure surfaces
as a pending replan.  And where no session is lost (`Orderly`) and the robot reports the failure of
a path's goal while that goal still stands (`FailsStanding`), every such report is found.

A goal that is not accepted ends as an arrival (`arrival_refused`): `execute_path` hands it to the
same callback.
-/

namespace EgbFleet

variable {G W : Type}

/-! ### The condition -/

/-- If the call gives a path, the robot accepts its goal. -/
def Call.accepted : Call G W → Bool
  | .followNewPath waypoints _ _ _ net =>
      waypoints.isEmpty || (net.zenohSession && net.reply == some true)
  | _ => true

/-- Every goal of a path with waypoints is accepted. -/
def Accepted (_ : State G W) : Action G W → Prop
  | .call c => c.accepted = true
  | _ => True

instance (s : State G W) : ∀ a, Decidable (Accepted s a)
  | .call c => inferInstanceAs (Decidable (c.accepted = true))
  | .exec | .update | .recvStatus _ | .status _ | .recvFeedback _ | .feedback =>
      inferInstanceAs (Decidable True)

/-- The executor has a path's goal the robot will refuse, or has refused. -/
def Exec.refuses : Exec G W → Bool
  | .invalidateOld f _ | .armSession f | .setSession f | .executePath f =>
      !sendWaypoints f.net f.waypoints
  | .install j _ | .sendGoal j _ | .awaitReply j _ =>
      j.request.caller.path?.isSome && !sendWaypoints j.request.net j.request.waypoints
  | .notAccepted j _ | .fire j _ _ => j.request.caller.path?.isSome
  | _ => false

theorem sendWaypoints_of_accepted {ws : List W} {limits : List ℚ} {estimator finished : Bool}
    {net : Network G} (hws : ws ≠ [])
    (h : (Call.followNewPath ws limits estimator finished net).accepted = true) :
    sendWaypoints net ws = true := by
  cases ws with
  | nil => exact absurd rfl hws
  | cons w ws => simpa [Call.accepted, sendWaypoints] using h

theorem PathStep.refuses {alive : SessionId → Bool} {r : PathRequest G W} {m m' : Mem G W}
    {e' : Exec G W} (h : PathStep alive r m m' e')
    (hr : (r.caller.path?.isSome && !sendWaypoints r.net r.waypoints) = false)
    (hl : r.caller.path?.isSome = true → m.lock alive ≠ none) : e'.refuses = false := by
  cases h with
  | locked => exact hr
  | lost hi => exact Bool.eq_false_iff.mpr fun hs => hl hs hi
  | lostSilent => rfl

theorem ExecStep.refuses {alive : SessionId → Bool} {e e' : Exec G W} {m m' : Mem G W}
    (h : ExecStep alive e m m' e') (hnav : NavOk m e)
    (halive : ∀ i, e.holds i = true → alive i = true) (he : e.refuses = false) :
    e'.refuses = false := by
  cases h with
  | invalidateOld | armSession | setSession | install | handOver | notAccepted | fire => exact he
  | @executePath f m m' e' h =>
      refine h.refuses he fun _ => ?_
      have hl := Mem.lock_eq_some.mpr ⟨hnav.exec.2.2, halive f.path (beq_self_eq_true _)⟩
      rw [hl]
      exact Option.some_ne_none _
  | refused h =>
      simp only [Exec.refuses, h, Bool.not_false, Bool.and_true] at he
      exact he
  | _ => rfl

theorem CallStep.refuses {alive : SessionId → Bool} {c : Call G W} {e' : Exec G W} {m m' : Mem G W}
    (h : CallStep alive c m m' e') (hc : c.accepted = true) : e'.refuses = false := by
  cases h with
  | follow hws | followOver hws =>
      simp only [Exec.refuses, sendWaypoints_of_accepted hws hc, Bool.not_true]
  | dock h | undock _ _ _ _ h => exact h.refuses rfl nofun
  | _ => rfl

/-! ### Arrivals -/

/-- The goal of path `p` was found `SUCCEEDED`. -/
def Arrived (h : List (Event G W)) (p : SessionId) : Prop :=
  ∃ g, PathGoal h p g ∧ .status p g .succeeded ∈ h

/-- A path is reported as finished when its goal has succeeded, or if it has no waypoints. -/
def FinishOk : Event G W → List (Event G W) → Prop
  | .finished p, h => Arrived h p ∨ .followed p [] ∈ h
  | _, _ => True

theorem finishOk_of_bland (e : Event G W) (h : List (Event G W)) (he : e.bland = true) :
    FinishOk e h := by
  cases e with
  | finished p => cases he
  | _ => trivial

/-- What a status callback runs for an arrival was taken from the path's session on success. -/
theorem TakenFrom.arrived {h : List (Event G W)} {i p : SessionId} {finished : Bool}
    (hf : TakenFrom h i (.report (.arrived p finished))) : Arrived h p := by
  obtain ⟨c, hc, hof⟩ := hf
  cases hof with
  | report ht =>
      cases hc with
      | @completion k g status goal path =>
          obtain ⟨n, kind⟩ := k
          cases kind with
          | path q fin =>
              cases ht
              obtain rfl := path p rfl
              exact ⟨g, ⟨n, finished, goal⟩, status⟩
          | dock | undock a => cases ht
      | failure => cases ht

/-- The closure the executor runs is not a path's, if no path's goal is refused. -/
theorem NavOk.not_arrived {m : Mem G W} {j : PathJob G W} {i : Option SessionId} {p : SessionId}
    {finished : Bool} (hm : NavOk m (.fire j i (.report (.arrived p finished))))
    (he : (Exec.fire j i (.report (.arrived p finished)) : Exec G W).refuses = false) : False := by
  obtain ⟨hj, k, hk, hof⟩ := hm.exec
  have hc := hj.made.path hk (hof.path?.symm.trans rfl)
  rw [Exec.refuses, hc] at he
  cases he

/-! ### Every run -/

/-- What holds while no path's goal is refused. -/
structure ArrivalInv (s : State G W) : Prop where
  nav : NavInv s
  accepted : s.exec.refuses = false
  named : Named s.mem
  finishes : Log.Justified FinishOk s.mem.log

theorem ArrivalInv.step [DecidableEq G] {s s' : State G W} {a : Action G W} (hP : Accepted s a)
    (h : navStep s a = some s') (hs : ArrivalInv s) : ArrivalInv s' := by
  have hm := navStep_moves h
  refine ⟨hs.nav.step h, ?_, hs.named.step hm hs.nav, ?_⟩
  · cases hm with
    | call c idle fresh => exact (callStep s.alive c s.mem).refuses hP
    | exec busy =>
        exact (execStep s.alive busy s.mem).refuses hs.nav.nav (fun _ => Exec.alive) hs.accepted
    | update | recvStatus | status | recvFeedback | feedback => exact hs.accepted
  · have hadds := hm.adds hs.nav
    generalize s'.mem.log = l at hadds
    cases hadds with
    | bland grows => exact grows.justified finishOk_of_bland hs.finishes
    | followed _ grows => exact grows.justified finishOk_of_bland ⟨trivial, hs.finishes⟩
    | followedEmpty _ grows =>
        exact grows.justified finishOk_of_bland ⟨.inr List.mem_cons_self, trivial, hs.finishes⟩
    | refused exec _ =>
        have hnav := hs.nav.nav
        have hacc := hs.accepted
        rw [exec] at hnav hacc
        exact (hnav.not_arrived hacc).elim
    | finished at_k =>
        have hf := hs.nav.status _ (List.mem_of_getElem? at_k)
        obtain rfl := hf.path rfl
        exact ⟨.inl hf.arrived, hs.finishes⟩
    | arrival | consumed | replan | status | flagged | feedback => exact ⟨trivial, hs.finishes⟩

theorem ArrivalInv.start : ArrivalInv (navStart : State G W) where
  nav := .start
  accepted := rfl
  named := ⟨nofun, nofun⟩
  finishes := trivial

/-! ### A failure is found -/

/-- Goal `g` is that of a path. -/
def OfPath [DecidableEq G] (h : List (Event G W)) (g : G) : Prop :=
  ∃ e ∈ h, ∃ k ∈ e.requester? g, (Closure.completion k).path?.isSome = true

/-- The failure of a path's goal is reported while that goal stands and was not found to have
succeeded, or when a failure of it has been found already. -/
def FailsStanding [DecidableEq G] (s : State G W) : Action G W → Prop
  | .status k => ∀ e ∈ s.entries k, ∀ st ∈ (s.entries k).find e.1, st.failed = true →
      Handed s.mem.log e.1 → OfPath s.mem.log e.1 →
        FoundWith GoalStatus.failed s.mem.log e.1 ∨ standingGoal s.mem.log = some e.1 ∧
          ¬ FoundWith (fun st => st = .succeeded) s.mem.log e.1
  | _ => True

instance [DecidableEq G] (h : List (Event G W)) (g : G) : Decidable (OfPath h g) :=
  inferInstanceAs
    (Decidable (∃ e ∈ h, ∃ k ∈ e.requester? g, (Closure.completion k).path?.isSome = true))

instance [DecidableEq G] (s : State G W) : ∀ a, Decidable (FailsStanding s a)
  | .status k => inferInstanceAs (Decidable (∀ e ∈ s.entries k, ∀ st ∈ (s.entries k).find e.1,
      st.failed = true → Handed s.mem.log e.1 → OfPath s.mem.log e.1 →
        FoundWith GoalStatus.failed s.mem.log e.1 ∨ standingGoal s.mem.log = some e.1 ∧
          ¬ FoundWith (fun st => st = .succeeded) s.mem.log e.1))
  | .call _ | .exec | .update | .recvStatus _ | .recvFeedback _ | .feedback =>
      inferInstanceAs (Decidable True)

/-- Paths are accepted, kept and reported on in time. -/
def Attended [DecidableEq G] (s : State G W) (a : Action G W) : Prop :=
  Accepted s a ∧ Orderly s a ∧ FailsStanding s a

instance [DecidableEq G] (s : State G W) (a : Action G W) : Decidable (Attended s a) :=
  inferInstanceAs (Decidable (_ ∧ _ ∧ _))

/-- The call that drew `g` was given no closure of a path. -/
def NotOfPath (h : List (Event G W)) (g : G) : Prop :=
  ∃ c k, .goal c g k ∈ h ∧ ∀ κ, k = some κ → (Closure.completion κ).path? = none

theorem NotOfPath.mono {h h' : List (Event G W)} (hs : h <:+ h') {g : G} (hg : NotOfPath h g) :
    NotOfPath h' g :=
  let ⟨c, k, hm, hk⟩ := hg
  ⟨c, k, hs.subset hm, hk⟩

theorem ofPath_or [DecidableEq G] {h : List (Event G W)} {c : CallId} {g : G}
    {k : Option Completion} (hm : .goal c g k ∈ h) : OfPath h g ∨ NotOfPath h g := by
  by_cases hk : ∃ κ, k = some κ ∧ (Closure.completion κ).path?.isSome = true
  · obtain ⟨κ, rfl, hp⟩ := hk
    obtain ⟨e, he, hκ⟩ := requester?_iff.mpr ⟨c, hm⟩
    exact .inl ⟨e, he, κ, hκ, hp⟩
  · refine .inr ⟨c, k, hm, fun κ hκ => ?_⟩
    simpa using fun h => hk ⟨κ, hκ, h⟩

theorem PathGoal.of_path {m : Mem G W} (hm : GoalsOk m) {p : SessionId} {g : G}
    (hg : PathGoal m.log p g) : ¬ NotOfPath m.log g := by
  rintro ⟨c, k, hc, hk⟩
  obtain ⟨c', fin, hc'⟩ := hg
  obtain ⟨-, rfl⟩ := hm.goal_inj hc hc'
  cases hk _ rfl

/-- The goal of a path leaves its session with a terminal status only. -/
theorem tracked_path [DecidableEq G] (g : G) :
    Tracked (W := W) Attended g fun h => FoundWith GoalStatus.terminal h g ∨ NotOfPath h g where
  orderly := fun hP => hP.2.1
  mono := fun hs => Or.imp (.mono hs) (.mono hs)
  ended := fun hst ht => .inl (foundWith_iff.mpr ⟨_, _, hst, ht⟩)
  armed := fun {s i} hs hg hu => by
    obtain ⟨⟨c, hc⟩, -⟩ := ((NavInv.reach hs).nav.mem.sessions i).goal g hg
    exact .inr ⟨c, _, hc, hu.completion⟩
  fired := fun {s s' j i c} hs he hg hm => by
    have hinv : ArrivalInv s := hs.invariant .start fun _ _ _ hP hstep hs => hs.step hP.1 hstep
    have hexec := hinv.nav.nav.exec
    have hacc := hinv.accepted
    rw [he] at hexec hacc
    refine .inr (.mono (hm.suffix hinv.nav) ⟨_, _, hg ▸ hexec.1.goal, fun κ hκ => ?_⟩)
    refine Option.eq_none_iff_forall_ne_some.mpr fun p hp => ?_
    -- the executor runs no closure of a path, for no path is refused
    rw [Exec.refuses, hexec.1.made.path hκ hp] at hacc
    cases hacc

/-- Every report of the failure of a path's goal is found. -/
theorem failure_found [DecidableEq G] {s t : State G W} {as : List (Action G W)}
    (hs : (navigation G W).Reach Attended s) (hr : (navigation G W).Run Attended s as t)
    {p : SessionId} {g : G} (hg : PathGoal t.mem.log p g) {k : Nat} {entries : StatusList G}
    {st : GoalStatus} (hk : s.status[k]? = some (.lock entries))
    (hst : entries.find g = some st) (hfail : st.failed = true) (hh : Handed s.mem.log g)
    (hdone : t.status[k]? = some .done) : FoundWith GoalStatus.failed t.mem.log g := by
  have ht : NavInv t := hr.preserves (fun _ _ _ _ hstep hs => hs.step hstep) (NavInv.reach hs)
  refine ((tracked_path g).resolved (E := fun h => FoundWith GoalStatus.failed h g ∨ NotOfPath h g)
    (fun hs => Or.imp (.mono hs) (.mono hs)) hs hr hk hst ?_ hh ?_ hdone).resolve_right
    (hg.of_path ht.nav.mem.goals)
  · exact fun h i hm => .inl (foundWith_iff.mpr ⟨i, st, hm, hfail⟩)
  · intro u hu hP he hh
    obtain ⟨c, κ, hc⟩ := (LegsInv.reach hu).drawn hh
    rcases ofPath_or hc with hpath | hnot
    swap
    · exact .inl (.inr hnot)
    obtain ⟨e, hmem, rfl⟩ : ∃ e ∈ u.entries k, e.1 = g := by
      rw [he]
      obtain ⟨e, hfind, -⟩ := Option.map_eq_some_iff.mp hst
      exact ⟨e, List.mem_of_find?_eq_some hfind, by simpa using List.find?_some hfind⟩
    rcases hP.2.2 e hmem st (he ▸ hst) hfail hh hpath with hf | ⟨hstands, hnot⟩
    · exact .inl (.inl hf)
    · refine .inr ⟨hstands, Or.imp_left fun hf => ?_⟩
      obtain ⟨i, st', hm, ht⟩ := foundWith_iff.mp hf
      refine foundWith_iff.mpr ⟨i, st', hm, ?_⟩
      cases st' with
      | succeeded => exact absurd (foundWith_iff.mpr ⟨i, _, hm, decide_eq_true rfl⟩) hnot
      | aborted | canceled => rfl
      | accepted | executing | other _ => cases ht

/-- **An arrival is a success.**  In runs where the robot accepts the goal of every path with
waypoints, no session is lost, and the failure of a path's goal is reported while that goal stands:
`path_finished_callback` of such a path is called only after its goal was found `SUCCEEDED`; if its
goal was found failed, it is not called and the failure surfaces; and a status message that reports
its failure has found it when its callback is done. -/
theorem arrival_is_success [DecidableEq G] {s t : State G W} {as : List (Action G W)}
    (hs : (navigation G W).Reach Attended s) (hr : (navigation G W).Run Attended s as t)
    {p : SessionId} {ws : List W} (hws : ws ≠ []) (hp : .followed p ws ∈ t.mem.log) :
    (∀ h₁ h₂, t.mem.log = h₁ ++ .finished p :: h₂ → Arrived h₂ p) ∧
      ∀ g, PathGoal t.mem.log p g →
        (∀ i st, .status i g st ∈ t.mem.log → st.failed = true →
          .finished p ∉ t.mem.log ∧ t.Surfaces (.status i g st) p) ∧
        ∀ (k : Nat) (entries : StatusList G) (st : GoalStatus),
          s.status[k]? = some (.lock entries) →
          entries.find g = some st → st.failed = true → Handed s.mem.log g →
            t.status[k]? = some .done →
              ∃ i st', .status i g st' ∈ t.mem.log ∧ st'.failed = true := by
  have ht : (navigation G W).Reach Attended t :=
    hr.preserves (fun _ _ _ hP hstep hs => hs.step hP hstep) hs
  have hinv : ArrivalInv t := ht.invariant .start fun _ _ _ hP hstep hs => hs.step hP.1 hstep
  have arrived (h₁ h₂) (hl : t.mem.log = h₁ ++ .finished p :: h₂) : Arrived h₂ p := by
    refine (Log.justified_iff.mp hinv.finishes h₁ _ h₂ hl).resolve_right fun hempty => hws ?_
    exact hinv.named.unique hp (by rw [hl]; simp [hempty])
  refine ⟨arrived, fun g hg => ⟨fun i st hst hfail => ⟨fun hf => ?_, ?_⟩, ?_⟩⟩
  · -- a goal ends once, and this one has failed
    have hends := EndsInv.reach ht
    obtain ⟨h₁, h₂, hl⟩ := List.append_of_mem hf
    have hsuffix : h₂ <:+ t.mem.log := ⟨h₁ ++ [.finished p], by simp [hl]⟩
    obtain ⟨g', hg', hs⟩ := arrived h₁ h₂ hl
    obtain rfl := hends.nav.nav.mem.goals.path_inj hg (hg'.mono hsuffix)
    obtain ⟨-, rfl⟩ := hends.ends.sole hst (hsuffix.subset hs) (terminal_of_failed hfail) rfl
    cases hfail
  · exact failure_surfaces ht hst hg hfail
  · intro k entries st hk hst hfail hh hdone
    exact foundWith_iff.mp (failure_found hs hr hg hk hst hfail hh hdone)

/-- The failure of the first path is processed, and the path that replaces it arrives. -/
def replaced : List (Action ℕ ℕ) :=
  List.replicate 5 (.status 0) ++ .call secondPath :: List.replicate 6 .exec ++
    .recvStatus [(8, .succeeded)] :: List.replicate 5 (.status 1)

/-- The robot aborts the first path, and the path that replaces it arrives. -/
theorem arrival_is_success_arrival :
    ∃ s t, (navigation ℕ ℕ).Reach Attended s ∧ s.status[0]? = some (.lock [(7, .aborted)]) ∧
      (navigation ℕ ℕ).Run Attended s replaced t ∧
      (∃ i st, .status i 7 st ∈ t.mem.log ∧ st.failed = true) ∧
      ∃ h₂, t.mem.log = .finished 1 :: h₂ ∧ Arrived h₂ 1 := by
  have hrun := Lts.exists_run (navigation ℕ ℕ) Attended navStart
    (following ++ [.recvStatus [(7, .aborted)]])
    (fun s => decide (s.status[0]? = some (.lock [(7, .aborted)])) &&
      decide (Handed s.mem.log 7) && ((navigation ℕ ℕ).runs Attended s replaced).any
        fun t =>
        decide (t.mem.log.head? = some (.finished 1)) && decide (t.status[0]? = some .done) &&
          decide (.followed 0 [1, 2] ∈ t.mem.log) && decide (.followed 1 [3] ∈ t.mem.log) &&
          decide (.goal 0 7 (some ⟨0, .path 0 true⟩) ∈ t.mem.log)) (by decide)
  obtain ⟨s, hs, hq⟩ := hrun
  simp only [Bool.and_eq_true, decide_eq_true_eq, Option.any_eq_true] at hq
  obtain ⟨⟨hk, hh⟩, t, ht, ⟨⟨⟨hhead, hdone⟩, hp₀⟩, hp₁⟩, hg₀⟩ := hq
  have hr := Lts.run_of_runs ht
  obtain ⟨h₂, hl⟩ := List.head?_eq_some_iff.mp hhead
  refine ⟨s, t, ⟨_, hs⟩, hk, hr, ?_, h₂, hl, ?_⟩
  · exact ((arrival_is_success ⟨_, hs⟩ hr (by simp) hp₀).2 7 ⟨0, true, hg₀⟩).2 0 _ _ hk rfl rfl hh
      hdone
  · exact (arrival_is_success ⟨_, hs⟩ hr (by simp) hp₁).1 [] h₂ hl

/-- The robot refuses the goal of path 0, and `path_finished_callback` is called. -/
theorem arrival_refused :
    ¬ ∀ t : State ℕ ℕ, (navigation ℕ ℕ).Reach (fun _ _ => True) t →
      ∀ p ws, ws ≠ [] → .followed p ws ∈ t.mem.log →
        ∀ h₁ h₂, t.mem.log = h₁ ++ .finished p :: h₂ → Arrived h₂ p := by
  intro h
  obtain ⟨t, ht, hq⟩ := Lts.exists_run (navigation ℕ ℕ) (fun _ _ => True) navStart
    [.call (.followNewPath [1, 2] [0, 0] true true ⟨7, true, some false⟩), .exec, .exec, .exec,
      .exec, .exec, .exec, .exec, .exec, .exec, .exec]
    (fun t => t.mem.log == [.followReturned 0, .finished 0,
      .invoked (.completion ⟨0, .path 0 true⟩),
      .sent 0 7 [1, 2] [⟨"lane_0", "wp_0", "wp_1", 0⟩], .goal 0 7 (some ⟨0, .path 0 true⟩),
      .unflagged, .followed 0 [1, 2]]) (by decide)
  have hl := beq_iff_eq.mp hq
  have arrived := h t ⟨_, ht⟩ 0 [1, 2] (by simp) (by simp [hl]) [.followReturned 0] _ hl
  obtain ⟨g, -, hst⟩ := arrived
  simp at hst

end EgbFleet
