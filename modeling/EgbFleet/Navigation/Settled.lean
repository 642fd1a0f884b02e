import EgbFleet.Navigation.Current
import EgbFleet.Support.Logs

/-!
# Navigation — closures that belong to the current path

`invalidate` empties the session of a path that is replaced or stopped, but not the closures that
were copied out of it before.  `K` says which closures count, by what they will come to.

In runs where none that counts is in flight when a path is followed or a `stop` ends, and an empty
path leaves none behind in the stored session (`Settled K`), every closure that counts, in flight
or in the stored session, is of the current path (`SettledInv.reach`).
-/

namespace EgbFleet

variable {G W : Type}

/-! ### The closures that count -/

/-- The closures in a session. -/
def NavigationSession.closures (σ : NavigationSession G) : List Closure :=
  σ.completionCallback.toList.map .completion ++ σ.failureCallback.toList.map .failure

variable (K : Tail → Bool)

/-- A closure that counts is in the session. -/
def NavigationSession.has (σ : NavigationSession G) : Bool :=
  σ.closures.any fun c => c.tail?.any K

/-- No closure that counts is in flight. -/
def State.Quiet (s : State G W) : Prop := ∀ f ∈ s.firings, f.tail?.any K = false

instance (s : State G W) : Decidable (s.Quiet K) :=
  inferInstanceAs (Decidable (∀ f ∈ s.firings, f.tail?.any K = false))

/-- No closure that counts is in flight when a path is followed or a `stop` ends, and an empty
path leaves none behind in the stored session. -/
def Settles (s : State G W) : Action G W → Prop
  | .call c => c.isFollow = true →
      s.Quiet K ∧ (c.follows = false → ∀ i ∈ s.mem.session, (s.mem.sessions i).has K = false)
  | .exec => s.exec.clears = true → s.Quiet K
  | _ => True

instance (s : State G W) : ∀ a, Decidable (Settles K s a)
  | .call c => inferInstanceAs (Decidable (c.isFollow = true → s.Quiet K ∧
      (c.follows = false → ∀ i ∈ s.mem.session, (s.mem.sessions i).has K = false)))
  | .exec => inferInstanceAs (Decidable (s.exec.clears = true → s.Quiet K))
  | .update | .recvStatus _ | .status _ | .recvFeedback _ | .feedback =>
      inferInstanceAs (Decidable True)

/-- Orderly, and settled whenever a path begins or ends. -/
def Settled [DecidableEq G] (s : State G W) (a : Action G W) : Prop := Orderly s a ∧ Settles K s a

instance [DecidableEq G] (s : State G W) (a : Action G W) : Decidable (Settled K s a) :=
  inferInstanceAs (Decidable (Orderly s a ∧ Settles K s a))

variable {K}

theorem NavigationSession.has_eq_true {σ : NavigationSession G} :
    σ.has K = true ↔
      (∃ k t, σ.completionCallback = some k ∧ (Closure.completion k).tail? = some t ∧ K t = true) ∨
      ∃ p, σ.failureCallback = some p ∧ K (.failed p) = true := by
  unfold NavigationSession.has NavigationSession.closures
  rw [List.any_append, Bool.or_eq_true]
  refine or_congr ?_ ?_
  · cases σ.completionCallback with
    | none => simp
    | some k => simp [Option.any_eq_true]
  · cases σ.failureCallback with
    | none => simp
    | some p => simp [Closure.tail?]

/-- What `status_callback` takes out of a session was in it. -/
theorem has_of_closureFor {σ : NavigationSession G} {st : GoalStatus} {c : Closure} {t : Tail}
    (h : σ.closureFor st = some c) (ht : c.tail? = some t) (hK : K t = true) :
    σ.has K = true := by
  rw [NavigationSession.has_eq_true]
  cases st with
  | succeeded =>
      obtain ⟨k, hk, rfl⟩ := Option.map_eq_some_iff.mp h
      exact .inl ⟨k, t, hk, ht, hK⟩
  | canceled | aborted =>
      obtain ⟨p, hp, rfl⟩ := Option.map_eq_some_iff.mp h
      cases ht
      exact .inr ⟨p, hp, hK⟩
  | accepted | executing | other _ => cases h

theorem Unarmed.has {σ : NavigationSession G} (h : Unarmed σ) : σ.has K = false := by
  rw [← Bool.not_eq_true, NavigationSession.has_eq_true]
  rintro (⟨k, t, hk, ht, -⟩ | ⟨p, hp, -⟩)
  · have hn := h.completion k hk
    rw [Closure.path?_of_tail? ht] at hn
    cases hn
  · rw [h.failure] at hp; cases hp

theorem Tame.has {m m' : Mem G W} (h : Tame m m') {p : SessionId}
    (hp : (m'.sessions p).has K = true) : (m.sessions p).has K = true := by
  rcases h.sessions p with e | e
  · rw [NavigationSession.has_eq_true] at hp ⊢
    rw [← e.completion, ← e.failure]
    exact hp
  · rw [e.unarmed.has] at hp; cases hp

/-! ### They belong to the current path -/

variable (K) in
/-- If the session in `session_` has a closure that counts, its path is current. -/
def StoredOk (m : Mem G W) : Prop :=
  ∀ p, m.session = some p → (m.sessions p).has K = true → currentPath m.log = some p

variable (K) in
/-- A closure in flight that counts is of the current path. -/
def FlyingOk (h : List (Event G W)) (f : Firing) : Prop :=
  ∀ t, f.tail? = some t → K t = true → currentPath h = some t.path

variable (K) in
/-- What holds in settled runs. -/
structure SettledInv (s : State G W) : Prop extends SoloInv s where
  follows : ∀ p, s.exec.follows? = some p → currentPath s.mem.log = some p
  stored : StoredOk K s.mem
  flying : ∀ t ∈ s.status, t.Fires fun _ => FlyingOk K s.mem.log

theorem StoredOk.tame {m m' : Mem G W} (hm : StoredOk K m) (h : Tame m m')
    (hc : currentPath m'.log = currentPath m.log) : StoredOk K m' := fun p hp hh => by
  rcases h.session with e | e
  · exact hc.trans (hm p (e ▸ hp) (h.has hh))
  · rw [e] at hp; cases hp

/-- Only the executor's own path is armed. -/
theorem StoredOk.modify {m : Mem G W} (hm : StoredOk K m) {i : SessionId}
    {f : NavigationSession G → NavigationSession G}
    (hi : (f (m.sessions i)).has K = true →
      (m.sessions i).has K = true ∨ currentPath m.log = some i) :
    StoredOk K (m.modify i f) := fun p =>
  Mem.sessions_modify_rec i f m p (fun hp hh => (hi hh).elim (hm i hp) id) fun _ => hm p

theorem NavigationSession.has_congr {σ σ' : NavigationSession G}
    (hc : σ'.completionCallback = σ.completionCallback)
    (hf : σ'.failureCallback = σ.failureCallback) : σ'.has K = σ.has K := by
  unfold NavigationSession.has NavigationSession.closures
  rw [hc, hf]

/-- A goal installed for a manoeuvre brings no path's closure. -/
theorem has_install {m : Mem G W} {j : PathJob G W} {i : SessionId}
    (hj : JobOk m.log j (some i)) (hp : j.request.caller ≠ .follow i)
    (h : ((m.sessions i).install j.request.net.goalId j.completion j.request.estimator).has K
      = true) : (m.sessions i).has K = true := by
  rw [NavigationSession.has_eq_true] at h ⊢
  rcases h with ⟨k, t, hk, ht, -⟩ | h
  · have hc := hj.made.path hk (Closure.path?_of_tail? ht)
    cases hj.follow _ hc
    exact absurd hc hp
  · exact .inr h

theorem PathStep.stored {alive : SessionId → Bool} {r : PathRequest G W} {m m' : Mem G W}
    {e' : Exec G W} (h : PathStep alive r m m' e') (hm : StoredOk K m) : StoredOk K m' := by
  intro p hp hh
  rw [h.session] at hp
  rw [h.sessions] at hh
  exact h.current.trans (hm p hp hh)

theorem ExecStep.stored {alive : SessionId → Bool} {e e' : Exec G W} {m m' : Mem G W}
    (h : ExecStep alive e m m' e') (hm : NavOk m e) (hsolo : Solo m e)
    (hf : ∀ p, e.follows? = some p → currentPath m.log = some p) (hs : StoredOk K m) :
    StoredOk K m' := by
  have modify (i : SessionId) {f : NavigationSession G → NavigationSession G}
      (hσ : SameCallbacks (m.sessions i) (f (m.sessions i)) ∨ Invalid (f (m.sessions i))) :
      StoredOk K (m.modify i f) := hs.tame (.modify hσ) rfl
  have returns {m₁ : Mem G W} (c : Caller) (hs : StoredOk K m₁) : StoredOk K (m₁.returnFrom c) :=
    hs.tame (.returnFrom c m₁) (current_returnFrom c m₁)
  have markDone (i : SessionId) : StoredOk K (m.modify i .markDone) :=
    hs.modify fun h => .inl ((NavigationSession.has_congr rfl rfl).symm.trans h)
  cases h with
  | invalidateOld => exact modify _ (.inr (invalid_invalidate _))
  | armSession =>
      have h₁ : StoredOk K ((m.setPendingFailure false).record .unflagged) :=
        hs.tame ((Tame.setPendingFailure m false).trans (.record _ rfl)) rfl
      exact h₁.modify fun _ => .inr (hf _ rfl)
  | setSession => exact hs
  | executePath h => exact h.stored hs
  | @install j i m =>
      refine hs.modify fun h => ?_
      by_cases hc : j.request.caller = .follow i
      · exact .inr (hf i (Caller.path?_eq_some.mpr hc))
      · exact .inl (has_install hm.exec.1 hc h)
  | handOver => exact hs.tame (.record _ rfl) rfl
  | accepted => exact returns _ hs
  | refused => exact hs
  | notAccepted => exact markDone _
  | notAcceptedSilent => exact returns _ (markDone _)
  | fire h => exact hs.tame h.tame h.current
  | fired h => exact returns _ (hs.tame h.tame h.current)
  | stopCancel | cancel =>
      split
      · exact modify _ (.inr (invalid_invalidate _))
      · exact hs
  | stopInvalidate => exact modify _ (.inr (invalid_invalidate _))
  | stopReset => exact fun _ hp => by cases hp
  | stopClear =>
      have hnone : m.session = none := hsolo.clear
      exact fun p hp => by cases hnone.symm.trans hp
  | stopRead | stopReadNone => exact hs

theorem has_newSession {m : Mem G W} {limits : List ℚ} {p : SessionId}
    (h : ((m.newSession limits).sessions p).has K = true) :
    p ≠ m.nextSession ∧ (m.sessions p).has K = true := by
  revert h
  exact Mem.sessions_newSession_rec m limits p nofun fun e h => ⟨e, h⟩

theorem CallStep.stored {alive : SessionId → Bool} {c : Call G W} {e' : Exec G W} {m m' : Mem G W}
    (h : CallStep alive c m m' e') (hs : StoredOk K m)
    (hc : c.isFollow = true → c.follows = false → ∀ i ∈ m.session, (m.sessions i).has K = false) :
    StoredOk K m' := by
  cases h with
  | @followEmpty limits est fin net m =>
      intro p hp hh
      have hp : m.session = some p := by
        rw [Mem.record_session] at hp
        split at hp <;> exact hp
      have hh : ((m.newSession limits).sessions p).has K = true := by
        rw [Mem.record_sessions] at hh
        split at hh <;> exact hh
      exact absurd (has_newSession hh).2 (by simp [hc rfl rfl p hp])
  | follow hws | followOver hws =>
      intro p hp hh
      cases hp
      exact absurd rfl (has_newSession hh).1
  | noDock =>
      split
      · exact hs.tame (.record _ rfl) rfl
      · exact hs
  | @dock ws fin net m m' e' h =>
      exact h.stored (hs.tame (.record m (e := .dockPlanned m.nextCall ws) rfl) rfl)
  | @undock a env ws net m m' e' ha _ _ _ h =>
      exact h.stored (hs.tame (.record m (e := .undockPlanned a m.nextCall ws) rfl) rfl)
  | undockReturns => exact hs.tame ((Tame.setUndock _ _ _).trans (.record _ rfl)) rfl
  | stop | stopNone | cancelNavigation | cancelNone => exact hs.tame (.record _ rfl) rfl

/-- A session about to give up a closure of its path is the stored one. -/
theorem SoloInv.stored_of_taken [DecidableEq G] {s : State G W} (hs : SoloInv s) {k : Nat}
    {x : Found G} {c : Closure} {p : SessionId} (hP : Orderly s (.status k))
    (hx : s.finds k = some x) (hc : s.taken x = some c) (hp : c.path? = some p) :
    s.mem.session = some x.session ∧ p = x.session := by
  obtain ⟨_, -, hg, -⟩ := State.finds_eq_some.mp hx
  obtain rfl := (Taken.of_closureFor hs.nav.nav.mem hg hc).path p hp
  refine ⟨?_, rfl⟩
  have unarmed (hu : Unarmed (s.mem.sessions x.session)) : False := by
    rcases x with ⟨i, g, st⟩
    cases st with
    | succeeded =>
        obtain ⟨k, hk, rfl⟩ := Option.map_eq_some_iff.mp hc
        rw [hu.completion k hk] at hp; cases hp
    | canceled | aborted =>
        obtain ⟨p, hf, -⟩ := Option.map_eq_some_iff.mp hc
        rw [hu.failure] at hf; cases hf
    | accepted | executing | other _ => cases hc
  rcases hs.solo.armed x.session with hu | hst | ⟨f, he⟩
  · exact (unarmed hu).elim
  · exact hst
  · have hset := hs.solo.setup f.path (by rw [he]; rfl)
    have hok := hs.nav.nav.exec
    rw [he] at hok
    rcases hP x hx c hc with hn | hn | hn
    · rw [hp] at hn; cases hn
    · rw [hset] at hn; cases hn
    · exact hn

theorem fires_quiet {s : State G W} (h : s.Quiet K) :
    ∀ t ∈ s.status, t.Fires fun _ f => f.tail?.any K = false := fun t ht => by
  cases t with
  | fire i f => exact h f (mem_firings ht)
  | lock _ | process _ _ | done => trivial

theorem SettledInv.step [DecidableEq G] {s s' : State G W} {a : Action G W}
    (hP : Settled K s a) (h : navStep s a = some s') (hs : SettledInv K s) : SettledInv K s' := by
  have hm := navStep_moves h
  have hsolo := hs.toSoloInv.step hP.1 h
  have hfol := follows_current_step h hs.follows
  refine ⟨hsolo, hfol, ?_, ?_⟩
  · cases hm with
    | call c idle fresh =>
        exact (callStep s.alive c s.mem).stored hs.stored fun hc => (hP.2 hc).2
    | exec busy =>
        exact (execStep s.alive busy s.mem).stored hs.nav.nav hs.solo hs.follows hs.stored
    | update =>
        have hu := updateStep s.update s.mem
        exact hs.stored.tame hu.zenohStep.toTame hu.current
    | recvStatus entries => exact hs.stored
    | status k t at_k =>
        have hk := statusStep s.alive t s.mem
        exact hs.stored.tame
          (hk.zenohStep (hs.nav.status t (List.mem_of_getElem? at_k))).toTame hk.current
    | recvFeedback msg idle => exact fun p hp hh => hs.stored p hp hh
    | feedback =>
        exact hs.stored.tame (FeedbackThread.zenohStep s.alive s.feedback s.mem).toTame
          (by rw [FeedbackThread.log])
  · -- where the current path changes, nothing that counts is in flight
    have quiet (hq : s.Quiet K) (hn : ∀ k, a ≠ .status k) :
        ∀ t ∈ s'.status, t.Fires fun _ => FlyingOk K s'.mem.log := by
      refine hm.fires (fires_quiet hq) (fun _ f hf t ht hK => ?_)
        (fun k _ _ e => absurd e (hn k)) (fun k _ _ _ e => absurd e (hn k))
      rw [ht, Option.any_some, hK] at hf
      cases hf
    rcases hm.current with hcur | ⟨c, rfl, hc⟩ | ⟨held, rfl, he⟩
    · refine hm.fires hs.flying (fun _ f hf t ht hK => hcur.trans (hf t ht hK)) ?_ ?_
      · rintro k x c rfl hx hc hmem t ht hK
        obtain ⟨hst, hp⟩ := hs.toSoloInv.stored_of_taken hP.1 hx hc (Closure.path?_of_tail? ht)
        rw [hcur, hp]
        exact hs.stored _ hst (has_of_closureFor hc ht hK)
      · intro k _ f f' _ hf hok t ht hK
        exact hcur.trans (hok t (hf.tail? ▸ ht) hK)
    · exact quiet (hP.2 hc).1 nofun
    · exact quiet (hP.2 (by rw [he]; rfl)) nofun

theorem SettledInv.reach [DecidableEq G] {s : State G W}
    (h : (navigation G W).Reach (Settled K) s) : SettledInv K s := by
  refine h.invariant ⟨.start, fun _ hp => (by cases hp), fun _ hp => (by cases hp), ?_⟩
    fun _ _ _ hP hstep hs => hs.step hP hstep
  simp [navigation, navStart]

end EgbFleet
