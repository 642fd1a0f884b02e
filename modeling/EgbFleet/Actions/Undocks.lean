import EgbFleet.Actions.Dispatch

/-!
# Actions — what becomes of an undock

`finished_accomplished`: where RMF has one action executed at a time, and undocking goes smoothly,
RMF is told that an execution is finished only after the robot has reported success for a goal made
of the waypoints its own action had planned, and told of an error only if its action has failed.

`overdue_concluded`: whatever the robot and the network do, the first `update_current_action` that
comes 61 s or more after an action was made concludes its execution.
-/

namespace EgbFleet

variable {G W : Type}

/-- An action has completed because its callback was called. -/
theorem navCompleted_of_completed [DecidableEq G] {P : State G W → Action G W → Prop}
    {s : State G W} (h : (navigation G W).Reach P s) (a : ActionId) :
    (s.mem.undock a).state = .completed → (s.mem.undock a).navCompleted = true := by
  refine h.invariant_of
    (I := fun s => (s.mem.undock a).state = .completed → (s.mem.undock a).navCompleted = true)
    (fun _ hs => NavInv.reach hs) (fun hc => by cases hc) fun s act s' _ hstep hs ih hc => ?_
  cases (navStep_moves hstep).undock hs a with
  | aside mem => rw [mem.2] at hc ⊢; exact ih hc
  | plans _ still => rw [still] at hc; cases hc
  | navigates _ _ state => rw [state] at hc; cases hc
  | invoked _ _ _ undock => rw [undock]
  | returns _ _ returns mem =>
      cases returns with
      | arrived _ hn => simpa [mem] using hn
      | completed h => simpa [mem] using ih h
      | gaveUp | started | timedOut | waits | failed => simp [mem] at hc

/-- Out of time, an action ends when it is asked: it has completed only if its callback was
called. -/
theorem startUpdateAction_late (alive : SessionId → Bool) (a : ActionId) {env : UndockEnv W}
    (late : env.timedOut = true) (net : Network G) {m : Mem G W}
    (hc : (m.undock a).state = .completed → (m.undock a).navCompleted = true) :
    ∃ st c, st.conclusion? = some c ∧ (c = .finished → (m.undock a).navCompleted = true) ∧
      (startUpdateAction alive a env net m).1.log = .actionReturned a st :: m.log := by
  unfold startUpdateAction
  split
  · exact ⟨.failed, _, rfl, nofun, by simp [late]⟩
  · cases hn : (m.undock a).navCompleted with
    | true => exact ⟨.completed, _, rfl, fun _ => rfl, rfl⟩
    | false => exact ⟨.failed, _, rfl, nofun, by simp [late]⟩
  · rename_i h
    exact ⟨.completed, _, rfl, fun _ => hc h, rfl⟩
  · exact ⟨.failed, _, rfl, nofun, rfl⟩

namespace Actions

/-! ### The polling -/

theorem PollInv.run {s t : State} {as : List Step} (hs : PollInv s)
    (h : polling.Run Vacant s as t) : PollInv t :=
  h.preserves (fun _ _ _ hP hstep hs => hs.step hP hstep) hs

/-- What `update_current_action` is about to conclude, it has concluded when it returns. -/
theorem concluded_of_concluding {s t : State} {as : List Step} {e : ActivityId} {c : Conclusion}
    (hs : PollInv s) (hc : s.timer = .concluding e c) (h : polling.Run Vacant s as t)
    (idle : t.timer = .idle) : .concluded e c ∈ t.log := by
  have hI : PollInv t ∧ (t.timer = .concluding e c ∨ .concluded e c ∈ t.log) := by
    refine h.preserves (I := fun s => PollInv s ∧ (s.timer = .concluding e c ∨
      .concluded e c ∈ s.log)) (fun s a s' hP hstep hI => ?_) ⟨hs, .inl hc⟩
    refine ⟨hI.1.step hP hstep, ?_⟩
    cases step_moves hstep with
    | dropped | unset => exact hI.2
    | stored => exact hI.2.imp_right (List.mem_cons_of_mem _)
    | snapshot idle => exact .inr (hI.2.resolve_left fun h => by rw [idle] at h; cases h)
    | monitored calling | ended calling =>
        have hmem := hI.2.resolve_left fun h => by rw [calling] at h; cases h
        exact .inr (List.mem_cons_of_mem _ hmem)
    | raised calling => exact .inr (hI.2.resolve_left fun h => by rw [calling] at h; cases h)
    | @concluded a c' concluding =>
        right
        rcases hI.2 with h | h
        · cases concluding.symm.trans h
          have hexec : s.currentActionExecution = some e :=
            hI.1.paired.trans (hI.1.current e (by rw [h]; rfl))
          simp [State.conclude, hexec]
        · exact List.mem_append_right _ h
  refine hI.2.resolve_left fun h => ?_
  rw [idle] at h
  cases h

theorem PollInv.reach {s : State} (h : polling.Reach Vacant s) : PollInv s :=
  h.invariant .init fun _ _ _ hP hstep hs => hs.step hP hstep

/-- An execution is concluded by what its action has returned. -/
theorem PollInv.returned_of_concluded {s : State} (hs : PollInv s) {e : ActivityId}
    {c : Conclusion} (hc : .concluded e c ∈ s.log) :
    ∃ st, .returned e st ∈ s.log ∧ st.conclusion? = some c := by
  have mem {h : List Event} {st : RobotActionState} (hl : lastReturned h = some (e, st)) :
      .returned e st ∈ h := by
    induction h with
    | nil => cases hl
    | cons x h ih =>
        cases x with
        | returned => cases hl; exact List.mem_cons_self
        | stored | concluded => exact List.mem_cons_of_mem _ (ih hl)
  obtain ⟨h₁, h₂, hl⟩ := List.append_of_mem hc
  obtain ⟨st, hlast, hst⟩ := Log.justified_iff.mp hs.own h₁ _ h₂ hl
  refine ⟨st, ?_, hst⟩
  rw [hl]
  exact List.mem_append_right _ (List.mem_cons_of_mem _ (mem hlast))

namespace Dispatch

variable [DecidableEq G]

instance (s : Dispatch G W) : ∀ a, Decidable (s.Vacant a)
  | .executeAction created _ =>
      inferInstanceAs (Decidable (Actions.Vacant s.polling (.executeAction created)))
  | .updateCurrentAction _ _ _ _ | .conclude | .navigate _ => inferInstanceAs (Decidable True)

instance (Q : EgbFleet.State G W → EgbFleet.Action G W → Prop) [∀ s a, Decidable (Q s a)]
    (s : Dispatch G W) (a : DispatchAction G W) : Decidable (s.Meets Q a) :=
  inferInstanceAs (Decidable (∀ b ∈ s.nav? a, Q s.nav b))

/-- RMF has one action executed at a time, and manoeuvres go smoothly. -/
def Smoothly (s : Dispatch G W) (a : DispatchAction G W) : Prop :=
  s.Vacant a ∧ s.Meets EgbFleet.Smooth a

instance [DecidableEq W] (s : Dispatch G W) (a : DispatchAction G W) : Decidable (s.Smoothly a) :=
  inferInstanceAs (Decidable (_ ∧ _))

/-- What a conclusion of an undock's execution tells RMF. -/
def Warranted (h : List (EgbFleet.Event G W)) (e : ActivityId) : Conclusion → Prop
  | .finished => ∃ c, Accomplished h c (.undock e)
  | .error _ => .actionReturned e .failed ∈ h

/-- **Finished is undocked.**  In runs where RMF has one action executed at a time, and where
manoeuvres find a session, and their goals are accepted and reported as successes only when they
have been sent, `finished()` is called on an execution only after the robot has reported success for
a goal with the waypoints its action planned, and `error()` only after its action has failed. -/
theorem finished_accomplished {s : Dispatch G W} (h : (dispatch G W).Reach Smoothly s)
    {e : ActivityId} {c : Conclusion} (hc : .concluded e c ∈ s.polling.log) :
    Warranted s.nav.mem.log e c := by
  obtain ⟨hs, hpolling, hnav⟩ := dispatch_refines (Q := EgbFleet.Smooth) (fun _ _ h => h.1)
    (fun _ _ h => h.2) h
  obtain ⟨st, hret, hst⟩ := (PollInv.reach hpolling).returned_of_concluded hc
  have hret := (hs.returned e st).mp hret
  cases st with
  | completed =>
      cases hst
      obtain ⟨h₁, h₂, hl⟩ := List.append_of_mem hret
      obtain ⟨n, hn⟩ := Log.justified_iff.mp (DoneInv.reach hnav).mem.reports h₁ _ h₂ hl
      exact ⟨n, hn.mono ⟨h₁ ++ [.actionReturned e .completed], by simp [hl]⟩⟩
  | failed =>
      cases hst
      exact hret
  | canceled => exact absurd hret (hs.uncanceled e)
  | inProgress | canceling => cases hst

/-- A path is followed; then an undock is executed in its session, and succeeds. -/
def undocked : List (DispatchAction ℕ ℕ) :=
  following.map .navigate ++
    [.executeAction true 0, .updateCurrentAction 1000000000 (some [4, 5]) true ⟨9, true, some true⟩,
      .navigate .exec, .navigate .exec, .navigate .exec,
      .navigate (.recvStatus [(9, .succeeded)]), .navigate (.status 0), .navigate (.status 0),
      .navigate (.status 0),
      .updateCurrentAction 9000000000 none true ⟨10, true, none⟩, .conclude]

theorem finished_accomplished_undocked :
    ∃ s, (dispatch ℕ ℕ).Run Smoothly (dispatch ℕ ℕ).init undocked s ∧
      .concluded 0 .finished ∈ s.polling.log ∧ ∃ n, Accomplished s.nav.mem.log n (.undock 0) := by
  obtain ⟨s, hs, hq⟩ := Lts.exists_run (dispatch ℕ ℕ) Smoothly (dispatch ℕ ℕ).init undocked
    (fun s => decide (.concluded 0 .finished ∈ s.polling.log)) (by decide)
  have hc := of_decide_eq_true hq
  exact ⟨s, hs, hc, finished_accomplished ⟨_, hs⟩ hc⟩

/-- **No undock is overdue.**  In runs where RMF has one action executed at a time, an
`update_current_action` that asks an action 61 s or more after it was made has concluded its
execution when it returns; as finished only if the action's callback has been called. -/
theorem overdue_concluded {s s' t : Dispatch G W} (h : (dispatch G W).Reach Vacant s)
    {e : ActivityId} (stored : s.polling.currentAction = some e) {now : ℤ}
    (late : 60 < s.elapsed e now) {path : Option (List W)} {navigationInterface : Bool}
    {net : Network G}
    (hpoll : s.step (.updateCurrentAction now path navigationInterface net) = some s')
    {as : List (DispatchAction G W)} (hrun : (dispatch G W).Run Vacant s' as t)
    (idle : t.polling.timer = .idle) :
    ∃ c, .concluded e c ∈ t.polling.log ∧
      (c = .finished → (s.nav.mem.undock e).navCompleted = true) := by
  obtain ⟨hs, hpolling, hnav⟩ := dispatch_refines (Q := fun _ _ => True) (fun _ _ h => h)
    (fun _ _ _ _ _ => trivial) h
  have hmoves := step_moves hpoll hs
  have hs' := hs.step hmoves
  obtain ⟨-, bs, hbs⟩ := simulates_polling (fun _ _ h => h) s
    (.updateCurrentAction now path navigationInterface net) s' trivial hpoll hs
  have hinv := (PollInv.reach hpolling).run hbs
  obtain ⟨-, cs, hcs⟩ := hrun.simulates (simulates_polling fun _ _ h => h) hs'
  cases hmoves with
  | unset _ unset => rw [stored] at unset; cases unset
  | starts _ current _ inTime =>
      cases stored.symm.trans current
      omega
  | @asks _ _ _ _ _ nav state st _ current hstep returns exec log =>
      cases stored.symm.trans current
      cases navStep_moves hstep with
      | call =>
          have timedOut : (s.env e now path navigationInterface).timedOut = true :=
            decide_eq_true late
          obtain ⟨st', c, hc, hfinished, hlog⟩ := startUpdateAction_late s.nav.alive e timedOut net
            (navCompleted_of_completed hnav e)
          cases hlog.symm.trans log
          refine ⟨c, concluded_of_concluding hinv ?_ hcs idle, hfinished⟩
          simp [told, Timer.after, hc]

/-- The action is asked again after 61 s, and nothing has come of its goal. -/
def outOfTime : DispatchAction ℕ ℕ := .updateCurrentAction 61000000000 none true ⟨10, true, none⟩

theorem overdue_concluded_outOfTime :
    ∃ s s' t : Dispatch ℕ ℕ, (dispatch ℕ ℕ).Run Vacant (dispatch ℕ ℕ).init (undocked.take 12) s ∧
      s.step outOfTime = some s' ∧ (dispatch ℕ ℕ).Run Vacant s' [.conclude] t ∧
      ∃ c, .concluded 0 c ∈ t.polling.log ∧
        (c = .finished → (s.nav.mem.undock 0).navCompleted = true) := by
  obtain ⟨s, hs, hq⟩ := Lts.exists_run (dispatch ℕ ℕ) Vacant (dispatch ℕ ℕ).init (undocked.take 12)
    (fun s => s.polling.currentAction = some 0 ∧ 60 < s.elapsed 0 61000000000 ∧
      ((s.step outOfTime).bind ((dispatch ℕ ℕ).runs Vacant · [.conclude])).any
        (·.polling.timer = .idle)) (by decide)
  obtain ⟨stored, late, hany⟩ := of_decide_eq_true hq
  obtain ⟨t, ht, idle⟩ := (Option.any_eq_true _ _).mp hany
  obtain ⟨s', hpoll, hrun⟩ := Option.bind_eq_some_iff.mp ht
  have hrun := Lts.run_of_runs hrun
  exact ⟨s, s', t, hs, hpoll, hrun,
    overdue_concluded ⟨_, hs⟩ stored late hpoll hrun (of_decide_eq_true idle)⟩

end Dispatch

end Actions

end EgbFleet
