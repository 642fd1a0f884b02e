import EgbFleet.Navigation.Arming
import EgbFleet.Navigation.Current
import EgbFleet.Navigation.Recorded

/-!
# Navigation — feedback goes to the path it is of

A feedback message passes through `session_wp_`, a snapshot of the session's callback and goal id,
the buffer of the path's session and `drain_pending_feedback`, with any steps of the other threads
between.  Its goal id is compared once, in the snapshot; afterwards it is the closure in the
snapshot that knows the path.

`forwarded_is_current`: where the executor's calls and the updates take turns (`Sequential`, as on
the one executor of `navigation_session.hpp`) and `follow_new_path([])` does not leave behind a
session with an RMF estimator (`Watches`), `drain_pending_feedback` calls only the estimator of the
current path, with what a message carrying the goal id of that path said, and each message at most
once and in order of receipt.  In every run, `status_callback` takes out of a session only the
completion callback of the call that drew the goal it has found.
-/

namespace EgbFleet

variable {G W : Type}

/-! ### The estimator that is called -/

/-- The executor's calls and the updates take turns. -/
def Sequential (s : State G W) : Action G W → Prop
  | .call _ => s.update = .idle
  | .update => s.exec.isIdle = true
  | _ => True

instance (s : State G W) : ∀ a, Decidable (Sequential s a)
  | .call _ => inferInstanceAs (Decidable (s.update = .idle))
  | .update => inferInstanceAs (Decidable (s.exec.isIdle = true))
  | .exec | .recvStatus _ | .status _ | .recvFeedback _ | .feedback =>
      inferInstanceAs (Decidable True)

/-- `follow_new_path([])` leaves behind no session with an RMF estimator. -/
def Watches (s : State G W) : Action G W → Prop
  | .call c => c.isFollow = true → c.follows = false →
      ∀ i ∈ s.mem.session, (s.mem.sessions i).rmfArrivalEstimator = none
  | _ => True

instance (s : State G W) : ∀ a, Decidable (Watches s a)
  | .call c => inferInstanceAs (Decidable (c.isFollow = true → c.follows = false →
      ∀ i ∈ s.mem.session, (s.mem.sessions i).rmfArrivalEstimator = none))
  | .exec | .update | .recvStatus _ | .status _ | .recvFeedback _ | .feedback =>
      inferInstanceAs (Decidable True)

/-- Only the estimator of the current path can be reached by an update. -/
structure Watched (m : Mem G W) (e : Exec G W) (u : UpdateThread) : Prop where
  stored : ∀ {i}, m.session = some i → (m.sessions i).rmfArrivalEstimator ≠ none →
    currentPath m.log = some i
  drains : ∀ {i}, u.drains? = some i → Holds m i ∧
    ((m.sessions i).rmfArrivalEstimator ≠ none → currentPath m.log = some i)
  forwards : ∀ {p fb}, u.forwards? = some (p, fb) → currentPath m.log = some p
  clears : ∀ {held}, e = .stopClear held → m.session = none

theorem Watched.next {m m' : Mem G W} {e e' : Exec G W} {u u' : UpdateThread}
    (hm : Watched m e u) (h : NoArming m m') (hs : m'.session = m.session ∨ m'.session = none)
    (hc : currentPath m'.log = currentPath m.log)
    (hd : ∀ i, u'.drains? = some i → u.drains? = some i)
    (hf : ∀ x, u'.forwards? = some x → u.forwards? = some x)
    (hcl : ∀ held, e' = .stopClear held → e = .stopClear held) : Watched m' e' u' where
  stored := fun {i} hi hr => by
    rcases hs with e | e
    · exact hc.trans (hm.stored (e ▸ hi) (mt h.rmf hr))
    · rw [e] at hi; cases hi
  drains := fun {i} hi =>
    have hd := hm.drains (hd i hi)
    ⟨hd.1.of_session hs, fun hr => hc.trans (hd.2 (mt h.rmf hr))⟩
  forwards := fun hp => hc.trans (hm.forwards (hf _ hp))
  clears := fun {held} he => by
    have hn := hm.clears (hcl held he)
    rcases hs with e | e
    · exact e.trans hn
    · exact e

theorem PathStep.watched {alive : SessionId → Bool} {r : PathRequest G W} {m m' : Mem G W}
    {e e' : Exec G W} {u : UpdateThread} (h : PathStep alive r m m' e') (hm : Watched m e u) :
    Watched m' e' u := by
  refine hm.next h.noArming (.inl h.session) h.current (fun _ => id) (fun _ => id) ?_
  cases h with
  | locked | lost | lostSilent => exact nofun

theorem ExecStep.watched {alive : SessionId → Bool} {e e' : Exec G W} {u : UpdateThread}
    {m m' : Mem G W} (h : ExecStep alive e m m' e') (hnav : NavOk m e) (hu : u = .idle)
    (hfol : ∀ p, e.follows? = some p → currentPath m.log = some p) (hm : Watched m e u) :
    Watched m' e' u := by
  subst hu
  have hu := h.noArming
  have hs := h.session.imp_right And.left
  have hc := h.current
  cases h with
  | @armSession f m =>
      refine ⟨fun {i} hi _ => ?_, nofun, nofun, nofun⟩
      have hstored := hnav.follows f.path rfl
      have hi : m.session = some i := hi
      rw [hi] at hstored
      obtain rfl : i = f.path := Option.some.inj (hstored.resolve_left (by simp))
      exact hfol _ rfl
  | executePath h => exact h.watched hm
  | stopReset =>
      refine ⟨?_, nofun, nofun, fun _ => rfl⟩
      exact fun hi => by cases hi
  | stopClear =>
      have hnone := hm.clears rfl
      exact ⟨fun hi => (by cases hnone.symm.trans hi), nofun, nofun, nofun⟩
  | _ =>
      exact hm.next (hu.resolve_right (by rintro ⟨_, ⟨⟩⟩)) hs
        (hc.resolve_right (by rintro ⟨_, ⟨⟩⟩)) nofun nofun nofun

theorem CallStep.watched {alive : SessionId → Bool} {c : Call G W} {e' : Exec G W}
    {u : UpdateThread} {m m' : Mem G W} (h : CallStep alive c m m' e') (hu : u = .idle)
    (hm : Watched m .idle u)
    (hP : c.isFollow = true → c.follows = false →
      ∀ i ∈ m.session, (m.sessions i).rmfArrivalEstimator = none) : Watched m' e' u := by
  subst hu
  have hu := h.noArming
  have hs := h.session
  have hc := h.current
  cases h with
  | followEmpty =>
      refine ⟨fun {i} hi hr => ?_, nofun, nofun, nofun⟩
      have hsame := (hs.resolve_right fun h => by cases h.1).2
      exact absurd (hu.rmf (hP rfl rfl i (hsame ▸ hi))) hr
  | follow | followOver =>
      refine ⟨fun hi _ => hc.trans hi, nofun, nofun, nofun⟩
  | dock h | undock _ _ _ _ h =>
      refine h.watched (e := .idle) ⟨hm.stored, nofun, nofun, nofun⟩
  | noDock | stop | stopNone | undockReturns | cancelNavigation | cancelNone =>
      exact hm.next hu (.inl (hs.resolve_right fun h => by cases h.1).2) hc nofun nofun nofun

theorem UpdateStep.watched {u u' : UpdateThread} {e : Exec G W} {m m' : Mem G W}
    (h : UpdateStep u m m' u') (hmem : MemOk m) (hm : Watched m e u) : Watched m' e u' := by
  cases h with
  | read _ hu' hd =>
      refine ⟨hm.stored, fun hi => ?_, fun hp => ?_, hm.clears⟩
      · rcases hd _ hi with hs | hs
        · exact ⟨.inr hs, hm.stored hs⟩
        · exact hm.drains hs
      · rw [hu'.1] at hp; cases hp
  | @drainTake i p fb m hfb hp =>
      have hu : NoArming m (m.modify i .clearFeedback) := .modify nofun id id
      refine ⟨fun hi hr => hm.stored hi (mt hu.rmf hr), nofun, ?_, hm.clears⟩
      rintro _ _ ⟨⟩
      have hcur := (hm.drains rfl).2 (by rw [hp]; exact Option.some_ne_none p)
      obtain rfl := (hmem.sessions i).rmf p hp
      exact hcur
  | drainForward | takeFailure | replan =>
      exact hm.next (.of_sessions rfl rfl) (.inl rfl) rfl nofun nofun fun _ => id

theorem Watched.step [DecidableEq G] {s s' : State G W} {a : Action G W} (hP : Watches s a)
    (hseq : Sequential s a) (h : navStep s a = some s') (hs : NavInv s)
    (hturn : s.exec = .idle ∨ s.update = .idle)
    (hfol : ∀ p, s.exec.follows? = some p → currentPath s.mem.log = some p)
    (hw : Watched s.mem s.exec s.update) : Watched s'.mem s'.exec s'.update := by
  cases navStep_moves h with
  | call c idle fresh => exact (callStep s.alive c s.mem).watched hseq (idle ▸ hw) hP
  | exec busy =>
      exact (execStep s.alive busy s.mem).watched hs.nav (hturn.resolve_left busy) hfol hw
  | update => exact (updateStep s.update s.mem).watched hs.nav.mem hw
  | recvStatus entries => exact hw
  | status k t at_k =>
      have hk := statusStep s.alive t s.mem
      exact hw.next hk.noArming (hk.session.imp_right And.left) hk.current (fun _ => id)
        (fun _ => id) fun _ => id
  | recvFeedback msg idle =>
      refine ⟨hw.stored, hw.drains, hw.forwards, hw.clears⟩
  | feedback =>
      have hz := (FeedbackThread.zenohStep s.alive s.feedback s.mem).toTame
      have rmf {i}
          (hr : ((s.feedback.step s.alive s.mem).1.sessions i).rmfArrivalEstimator ≠ none) :
          (s.mem.sessions i).rmfArrivalEstimator ≠ none := by
        rcases hz.sessions i with e | e
        · exact e.rmf ▸ hr
        · exact absurd e.rmf hr
      have hsess := FeedbackThread.session s.alive s.feedback s.mem
      have hlog := FeedbackThread.log s.alive s.feedback s.mem
      refine ⟨fun hi hr => ?_, fun hd => ?_, fun hf => ?_, fun he => ?_⟩
      · rw [hlog]; exact hw.stored (hsess ▸ hi) (rmf hr)
      · obtain ⟨hh, hcur⟩ := hw.drains hd
        exact ⟨hh.of_session (.inl hsess), fun hr => by rw [hlog]; exact hcur (rmf hr)⟩
      · rw [hlog]; exact hw.forwards hf
      · exact hsess.trans (hw.clears he)

/-! ### The feedback on its way -/

/-- `fb` is what a feedback message for the goal of path `p` said. -/
def Sourced (h : List (Event G W)) (p : SessionId) (fb : PendingFeedback) : Prop :=
  ∃ msg, .feedback fb.receipt msg ∈ h ∧ PathGoal h p msg.goalId ∧
    fb.waypointIndex = msg.targetWaypointIndex ∧ fb.etaSeconds = msg.etaSeconds

theorem Sourced.mono {h h' : List (Event G W)} (hs : h <:+ h') {p : SessionId}
    {fb : PendingFeedback} (hf : Sourced h p fb) : Sourced h' p fb :=
  let ⟨msg, hm, hp, hv⟩ := hf
  ⟨msg, hs.subset hm, hp.mono hs, hv⟩

/-- What the feedback callback knows of its message. -/
def FeedbackThread.Ok (h : List (Event G W)) : FeedbackThread G → Prop
  | .idle => True
  | .lock n msg | .check _ n msg | .snapshot _ n msg => .feedback n msg ∈ h
  | .store _ cb n msg => .feedback n msg ∈ h ∧ ∀ p, cb = some p → PathGoal h p msg.goalId
  | .estimate _ p n msg | .index _ p n msg | .buffer _ p n msg =>
      .feedback n msg ∈ h ∧ PathGoal h p msg.goalId

/-- Every receipt not being processed is below this one. -/
def FeedbackThread.bound (next : Nat) : FeedbackThread G → Nat
  | .idle => next
  | .lock n _ | .check _ n _ | .snapshot _ n _ | .store _ _ n _ | .estimate _ _ n _
  | .index _ _ n _ | .buffer _ _ n _ => n

theorem FeedbackThread.Ok.mono {h h' : List (Event G W)} (hs : h <:+ h') {t : FeedbackThread G}
    (ht : t.Ok h) : t.Ok h' := by
  cases t with
  | idle => trivial
  | lock n msg | check i n msg | snapshot i n msg => exact hs.subset ht
  | store i cb n msg => exact ⟨hs.subset ht.1, fun p hp => (ht.2 p hp).mono hs⟩
  | estimate i p n msg | index i p n msg | buffer i p n msg => exact ⟨hs.subset ht.1, ht.2.mono hs⟩

/-- The snapshot compares the message's goal with the one the session's callback belongs to. -/
theorem FeedbackThread.Ok.step [DecidableEq G] (alive : SessionId → Bool) {m : Mem G W}
    (hm : MemOk m) {t : FeedbackThread G} (ht : t.Ok m.log) : (t.step alive m).2.Ok m.log := by
  cases t with
  | idle => trivial
  | lock n msg =>
      simp only [FeedbackThread.step]
      split
      · exact ht
      · trivial
  | check i n msg =>
      simp only [FeedbackThread.step]
      split
      · trivial
      · exact ht
  | snapshot i n msg =>
      simp only [FeedbackThread.step]
      split
      · rename_i hg
        refine ⟨ht, fun p hp => ?_⟩
        obtain ⟨rfl, c, fin, hk⟩ := (hm.sessions i).estimator p hp
        exact ⟨c, fin, hm.goal_of_completion hg hk⟩
      · trivial
  | store i cb n msg =>
      cases cb with
      | none => trivial
      | some p => exact ⟨ht.1, ht.2 p rfl⟩
  | estimate i p n msg =>
      simp only [FeedbackThread.step]
      split
      · exact ht
      · trivial
  | index i p n msg => exact ht
  | buffer i p n msg => trivial

theorem FeedbackThread.bound_step [DecidableEq G] (alive : SessionId → Bool) {m : Mem G W}
    {t : FeedbackThread G} {next : Nat} (hn : t.bound next ≤ next) :
    t.bound next ≤ (t.step alive m).2.bound next := by
  cases t with
  | idle | index _ _ _ _ => exact le_rfl
  | lock _ _ | snapshot _ _ _ | store _ _ _ _ | estimate _ _ _ _ =>
      simp only [FeedbackThread.step]
      split
      · exact le_rfl
      · exact hn
  | check _ _ _ =>
      simp only [FeedbackThread.step]
      split
      · exact hn
      · exact le_rfl
  | buffer _ _ _ _ => exact hn

/-- Only `wrapped_estimator` buffers, what its message said. -/
theorem FeedbackThread.pending [DecidableEq G] (alive : SessionId → Bool) {m : Mem G W}
    {t : FeedbackThread G} {i : SessionId} {fb : PendingFeedback}
    (h : ((t.step alive m).1.sessions i).pendingFeedback = some fb) :
    (m.sessions i).pendingFeedback = some fb ∨
      ∃ i' n msg, t = .buffer i' i n msg ∧ fb = ⟨msg.targetWaypointIndex, msg.etaSeconds, n⟩ := by
  have same {m' : Mem G W} (hu : NoArming m m') (h : (m'.sessions i).pendingFeedback = some fb) :=
    hu.pending h
  cases t with
  | idle | lock _ _ | check _ _ _ | snapshot _ _ _ | estimate _ _ _ _ => exact .inl h
  | store _ _ _ _ | index _ _ _ _ => exact .inl (same (.modify (fun _ => id) id id) h)
  | buffer i' p n msg =>
      by_cases e : i = p
      · subst e
        simp only [FeedbackThread.step, Mem.sessions_modify_self] at h
        exact .inr ⟨i', n, msg, rfl, (Option.some.inj h).symm⟩
      · simp only [FeedbackThread.step, Mem.sessions_modify_of_ne _ _ _ e] at h
        exact .inl h

/-- The receipt `r` has been forwarded, or is about to be. -/
def Forwarded (h : List (Event G W)) (u : UpdateThread) (r : Nat) : Prop :=
  (∃ p fb, .arrival p fb ∈ h ∧ fb.receipt = r) ∨ ∃ p fb, u.forwards? = some (p, fb) ∧ fb.receipt = r

/-- The receipts on their way: in the log, in the buffers and at the two threads. -/
structure FeedOk (m : Mem G W) (u : UpdateThread) (t : FeedbackThread G) : Prop where
  numbered : ∀ {n msg}, .feedback n msg ∈ m.log → n < m.nextReceipt
  thread : t.Ok m.log
  pending : ∀ {i fb}, (m.sessions i).pendingFeedback = some fb →
    Sourced m.log i fb ∧ fb.receipt < t.bound m.nextReceipt
  forwarded : ∀ {r}, Forwarded m.log u r → r < t.bound m.nextReceipt
  fresh : ∀ {i fb r}, m.session = some i ∨ u.drains? = some i →
    (m.sessions i).pendingFeedback = some fb → Forwarded m.log u r → r < fb.receipt
  forwards : ∀ {p fb}, u.forwards? = some (p, fb) → Sourced m.log p fb ∧
    ∀ {p' fb'}, .arrival p' fb' ∈ m.log → fb'.receipt < fb.receipt

theorem FeedOk.bound_le {m : Mem G W} {u : UpdateThread} {t : FeedbackThread G} (h : FeedOk m u t) :
    t.bound m.nextReceipt ≤ m.nextReceipt := by
  have ht := h.thread
  cases t with
  | idle => exact le_rfl
  | lock _ _ | check _ _ _ | snapshot _ _ _ => exact (h.numbered ht).le
  | store _ _ _ _ | estimate _ _ _ _ | index _ _ _ _ | buffer _ _ _ _ => exact (h.numbered ht.1).le

/-- A step that forwards nothing, of another thread than the feedback callback. -/
theorem FeedOk.next {m m' : Mem G W} {u u' : UpdateThread} {t : FeedbackThread G}
    (hf : FeedOk m u t)
    (hlog : m.log <:+ m'.log) (hn : m'.nextReceipt = m.nextReceipt)
    (hfeed : ∀ {n msg}, .feedback n msg ∈ m'.log → .feedback n msg ∈ m.log)
    (harr : ∀ {p fb}, .arrival p fb ∈ m'.log → .arrival p fb ∈ m.log)
    (hpend : ∀ {i fb}, (m'.sessions i).pendingFeedback = some fb →
      (m.sessions i).pendingFeedback = some fb)
    (htarget : ∀ {i fb}, m'.session = some i ∨ u'.drains? = some i →
      (m'.sessions i).pendingFeedback = some fb → m.session = some i ∨ u.drains? = some i)
    (hfor : ∀ x, u'.forwards? = some x → u.forwards? = some x) : FeedOk m' u' t := by
  have back {r} (h : Forwarded m'.log u' r) : Forwarded m.log u r := by
    rcases h with ⟨p, fb, ha, hr⟩ | ⟨p, fb, he, hr⟩
    · exact .inl ⟨p, fb, harr ha, hr⟩
    · exact .inr ⟨p, fb, hfor _ he, hr⟩
  refine ⟨fun h => ?_, hf.thread.mono hlog, fun h => ?_, fun h => ?_, fun hi h hr => ?_,
    fun h => ?_⟩
  · rw [hn]; exact hf.numbered (hfeed h)
  · obtain ⟨hs, hlt⟩ := hf.pending (hpend h)
    exact ⟨hs.mono hlog, hn ▸ hlt⟩
  · rw [hn]; exact hf.forwarded (back h)
  · exact hf.fresh (htarget hi h) (hpend h) (back hr)
  · obtain ⟨hs, hlt⟩ := hf.forwards (hfor _ h)
    exact ⟨hs.mono hlog, fun h => hlt (harr h)⟩

def Event.fed : Event G W → Bool
  | .feedback _ _ | .arrival _ _ => true
  | _ => false

theorem Event.bland_of_fed {x : Event G W} (hx : x.fed = true) : x.bland = false := by
  cases x with
  | feedback _ _ | arrival _ _ => rfl
  | _ => cases hx

/-- Feedback is received by its callback, and forwarded by an update. -/
theorem Moves.fed [DecidableEq G] {s s' : State G W} {a : Action G W} (h : Moves s a s')
    (hs : NavInv s) {x : Event G W} (hx : x.fed = true) (hm : x ∈ s'.mem.log) :
    x ∈ s.mem.log ∨ (a = .update ∧ ∃ i p fb, s.update = .drainForward i p fb) ∨
      ∃ msg, a = .recvFeedback msg := by
  have hadds := h.adds hs
  generalize s'.mem.log = l at hadds hm
  have tail {y : Event G W} {l : List (Event G W)} (hm : x ∈ y :: l) (hy : y.fed = false) : x ∈ l :=
    (List.mem_cons.mp hm).resolve_left fun e => by rw [e, hy] at hx; cases hx
  cases hadds with
  | bland grows => exact .inl (grows.back (Event.bland_of_fed hx) hm)
  | followed _ grows | refused _ grows =>
      exact .inl (tail (grows.back (Event.bland_of_fed hx) hm) rfl)
  | followedEmpty _ grows =>
      exact .inl (tail (tail (grows.back (Event.bland_of_fed hx) hm) rfl) rfl)
  | arrival hu => exact .inr (.inl ⟨rfl, _, _, _, hu⟩)
  | consumed | replan | status | finished | flagged => exact .inl (tail hm rfl)
  | feedback => exact .inr (.inr ⟨_, rfl⟩)

theorem CallStep.target {alive : SessionId → Bool} {c : Call G W} {e' : Exec G W} {m m' : Mem G W}
    (h : CallStep alive c m m' e') {i : SessionId} {fb : PendingFeedback}
    (hi : m'.session = some i) (hp : (m'.sessions i).pendingFeedback = some fb) :
    m.session = some i := by
  have hs := h.session
  cases h with
  | followEmpty => exact (hs.resolve_right fun h => by cases h.1).2.symm.trans hi
  | @follow ws limits est fin net m | @followOver ws limits est fin net old m =>
      obtain rfl : m.nextSession = i := Option.some.inj hi
      have hp : ((m.newSession limits).sessions m.nextSession).pendingFeedback = some fb := hp
      simp only [Mem.newSession_sessions, Function.update_self] at hp
      cases hp
  | dock h | undock _ _ _ _ h => rw [h.session] at hi; exact hi
  | noDock | stop | stopNone | undockReturns | cancelNavigation | cancelNone =>
      exact (hs.resolve_right fun h => by cases h.1).2.symm.trans hi

theorem ExecStep.buffered {alive : SessionId → Bool} {e e' : Exec G W} {m m' : Mem G W}
    (h : ExecStep alive e m m' e') {i : SessionId} {fb : PendingFeedback}
    (hp : (m'.sessions i).pendingFeedback = some fb) :
    (m.sessions i).pendingFeedback = some fb := by
  rcases h.noArming with hu | ⟨f, rfl⟩
  · exact hu.pending hp
  · cases h with
    | @armSession f m =>
        have arm (j : SessionId) :
            ((((m.setPendingFailure false).record .unflagged).modify f.path
              (.arm f.path f.estimator)).sessions j).pendingFeedback =
              (m.sessions j).pendingFeedback :=
          Mem.sessions_modify_rec f.path _ ((m.setPendingFailure false).record .unflagged) j rfl
            fun _ => rfl
        exact (arm i).symm.trans hp

theorem UpdateStep.feed {u u' : UpdateThread} {m m' : Mem G W} {e : Exec G W}
    {t : FeedbackThread G} (h : UpdateStep u m m' u') (hmem : MemOk m) (hw : Watched m e u)
    (hf : FeedOk m u t) : FeedOk m' u' t := by
  have record {ev : Event G W} {m : Mem G W} (he : ev.fed = false) {x : Event G W}
      (hx : x.fed = true) (h : x ∈ (m.record ev).log) : x ∈ m.log :=
    (List.mem_cons.mp h).resolve_left fun h => by rw [h, he] at hx; cases hx
  cases h with
  | read _ hu' hd =>
      refine hf.next (List.suffix_refl _) rfl id id id (fun hi _ => hi.elim .inl (hd _)) ?_
      intro x hx
      rw [hu'.1] at hx
      cases hx
  | @drainTake i p fb m hfb hp =>
      -- the one session an update can reach has given up its feedback
      have gone {j fb'} (hj : m.session = some j ∨ (none : Option SessionId) = some j)
          (h : ((m.modify i .clearFeedback).sessions j).pendingFeedback = some fb') : False := by
        rcases (hw.drains rfl).1 with hn | hi
        · rw [hn] at hj; exact hj.elim nofun nofun
        · obtain rfl := Option.some.inj (hi.symm.trans (hj.resolve_right nofun))
          rw [Mem.sessions_modify_self] at h
          cases h
      have hu : NoArming m (m.modify i .clearFeedback) := .modify nofun id id
      obtain ⟨hsrc, hlt⟩ := hf.pending hfb
      obtain rfl := (hmem.sessions i).rmf p hp
      refine ⟨hf.numbered, hf.thread, fun h => hf.pending (hu.pending h), fun hr => ?_,
        fun hj h _ => (gone hj h).elim, ?_⟩
      · rcases hr with ha | ⟨_, _, ⟨⟩, rfl⟩
        · exact hf.forwarded (.inl ha)
        · exact hlt
      · rintro _ _ ⟨⟩
        exact ⟨hsrc, fun ha => hf.fresh (.inr rfl) hfb (.inl ⟨_, _, ha, rfl⟩)⟩
  | @drainForward i p fb m =>
      have back {r} (h : Forwarded (Event.arrival p fb :: m.log) .takeFailure r) :
          Forwarded m.log (.drainForward i p fb) r := by
        rcases h with ⟨p', fb', ha, hr⟩ | ⟨_, _, ⟨⟩, _⟩
        rcases List.mem_cons.mp ha with e | ha
        · cases e; exact .inr ⟨p, fb, rfl, hr⟩
        · exact .inl ⟨p', fb', ha, hr⟩
      have hlog : m.log <:+ Event.arrival p fb :: m.log := List.suffix_cons _ _
      refine ⟨fun h => hf.numbered ((List.mem_cons.mp h).resolve_left fun h => by cases h),
        hf.thread.mono hlog, fun h => ?_, fun h => hf.forwarded (back h), ?_, nofun⟩
      · exact ⟨(hf.pending h).1.mono hlog, (hf.pending h).2⟩
      · exact fun hi h hr => hf.fresh (.inl (hi.resolve_right nofun)) h (back hr)
  | takeFailure | replan =>
      exact hf.next (List.suffix_cons _ _) rfl (record rfl rfl) (record rfl rfl) id
        (fun hi _ => .inl (hi.resolve_right nofun)) nofun

/-- Zenoh delivers message number `nextReceipt`. -/
theorem FeedOk.recv {m : Mem G W} {u : UpdateThread} (hf : FeedOk m u .idle)
    (msg : FeedbackMessage G) :
    FeedOk (m.newReceipt.record (.feedback m.nextReceipt msg)) u (.lock m.nextReceipt msg) := by
  have hlog : m.log <:+ (m.newReceipt.record (.feedback m.nextReceipt msg)).log :=
    List.suffix_cons _ _
  have arrival {p fb}
      (h : .arrival p fb ∈ (m.newReceipt.record (.feedback m.nextReceipt msg)).log) :
      .arrival p fb ∈ m.log :=
    (List.mem_cons.mp h).resolve_left fun h => by cases h
  have back {r} (h : Forwarded (m.newReceipt.record (.feedback m.nextReceipt msg)).log u r) :
      Forwarded m.log u r := by
    rcases h with ⟨p, fb, ha, hr⟩ | h
    · exact .inl ⟨p, fb, arrival ha, hr⟩
    · exact .inr h
  refine ⟨fun h => ?_, List.mem_cons_self, fun h => ?_, fun h => hf.forwarded (back h),
    fun hi h hr => hf.fresh hi h (back hr), fun h => ?_⟩
  · rcases List.mem_cons.mp h with e | h
    · cases e; exact Nat.lt_succ_self _
    · exact (hf.numbered h).trans (Nat.lt_succ_self _)
  · exact ⟨(hf.pending h).1.mono hlog, (hf.pending h).2⟩
  · exact ⟨(hf.forwards h).1.mono hlog, fun ha => (hf.forwards h).2 (arrival ha)⟩

/-- The feedback callback takes a step. -/
theorem FeedOk.feedback [DecidableEq G] (alive : SessionId → Bool) {m : Mem G W} {u : UpdateThread}
    {t : FeedbackThread G} (hm : MemOk m) (hf : FeedOk m u t) :
    FeedOk (t.step alive m).1 u (t.step alive m).2 := by
  have hlog := FeedbackThread.log alive t m
  have hn : (t.step alive m).1.nextReceipt = m.nextReceipt := by cases t <;> rfl
  have hbound := t.bound_step alive (m := m) hf.bound_le
  refine ⟨?_, ?_, fun {i fb} h => ?_, fun h => ?_, fun {i fb r} hi h hr => ?_, fun h => ?_⟩
  · rw [hlog, hn]; exact hf.numbered
  · rw [hlog]; exact hf.thread.step alive hm
  · rw [hlog, hn]
    rcases t.pending alive h with h | ⟨i', n, msg, rfl, rfl⟩
    · exact ⟨(hf.pending h).1, (hf.pending h).2.trans_le hbound⟩
    · obtain ⟨hmsg, hp⟩ := hf.thread
      exact ⟨⟨msg, hmsg, hp, rfl, rfl⟩, hf.numbered hmsg⟩
  · rw [hlog] at h
    rw [hn]
    exact (hf.forwarded h).trans_le hbound
  · rw [hlog] at hr
    rw [FeedbackThread.session] at hi
    rcases t.pending alive h with h | ⟨i', n, msg, rfl, rfl⟩
    · exact hf.fresh hi h hr
    · exact hf.forwarded hr
  · rw [hlog]; exact hf.forwards h

theorem FeedOk.step [DecidableEq G] {s s' : State G W} {a : Action G W} (hseq : Sequential s a)
    (h : navStep s a = some s') (hs : NavInv s) (hturn : s.exec = .idle ∨ s.update = .idle)
    (hw : Watched s.mem s.exec s.update) (hf : FeedOk s.mem s.update s.feedback) :
    FeedOk s'.mem s'.update s'.feedback := by
  have hm := navStep_moves h
  have hlog := hm.suffix hs
  -- only an update and a new message record feedback
  have back (ha : a ≠ .update) (hr : ∀ msg, a ≠ .recvFeedback msg) (x : Event G W)
      (hx : x.fed = true) (h : x ∈ s'.mem.log) : x ∈ s.mem.log := by
    rcases hm.fed hs hx h with h | ⟨rfl, -⟩ | ⟨msg, rfl⟩
    · exact h
    · exact absurd rfl ha
    · exact absurd rfl (hr msg)
  cases hm with
  | call c idle fresh =>
      have hc := callStep s.alive c s.mem
      have hidle : s.update = .idle := hseq
      refine hf.next hlog hc.noArming.nextReceipt (back nofun nofun _ rfl) (back nofun nofun _ rfl)
        hc.noArming.pending (fun hi hp => ?_) fun _ => id
      rw [hidle] at hi ⊢
      exact .inl (hc.target (hi.resolve_right nofun) hp)
  | exec busy =>
      have he := execStep s.alive busy s.mem
      have hidle := hturn.resolve_left busy
      refine hf.next hlog ?_ (back nofun nofun _ rfl) (back nofun nofun _ rfl) he.buffered
        (fun hi hp => ?_) fun _ => id
      · rcases he.noArming with hu | ⟨f, hf⟩
        · exact hu.nextReceipt
        · dsimp only
          rw [hf]
          rfl
      · rw [hidle] at hi ⊢
        rcases he.session with e | ⟨e, -⟩
        · exact .inl (e ▸ hi.resolve_right nofun)
        · cases e.symm.trans (hi.resolve_right nofun)
  | update => exact (updateStep s.update s.mem).feed hs.nav.mem hw hf
  | recvStatus entries => exact hf
  | status k t at_k =>
      have hk := statusStep s.alive t s.mem
      refine hf.next hlog hk.noArming.nextReceipt (back nofun nofun _ rfl) (back nofun nofun _ rfl)
        hk.noArming.pending (fun hi _ => ?_) fun _ => id
      refine hi.imp_left fun hi => ?_
      rcases hk.session with e | ⟨e, -⟩
      · exact e ▸ hi
      · rw [e] at hi; cases hi
  | recvFeedback msg idle => exact (idle ▸ hf).recv msg
  | feedback => exact hf.feedback s.alive hs.nav.mem

/-! ### Every run -/

/-- Feedback messages are numbered in order of receipt; the estimator called is that of the
current path, with what a message for the path's goal said, received after all those forwarded
before. -/
def ForwardOk : Event G W → List (Event G W) → Prop
  | .feedback n _, h => ∀ n' msg, .feedback n' msg ∈ h → n' < n
  | .arrival p fb, h => currentPath h = some p ∧ Sourced h p fb ∧
      ∀ p' fb', .arrival p' fb' ∈ h → fb'.receipt < fb.receipt
  | _, _ => True

theorem forwardOk_of_bland (e : Event G W) (h : List (Event G W)) (he : e.bland = true) :
    ForwardOk e h := by
  cases e with
  | feedback _ _ | arrival _ _ => cases he
  | _ => trivial

/-- The feedback on its way, and all that was forwarded. -/
structure FeedInv (s : State G W) : Prop where
  nav : NavInv s
  turns : s.exec = .idle ∨ s.update = .idle
  follows : ∀ p, s.exec.follows? = some p → currentPath s.mem.log = some p
  watched : Watched s.mem s.exec s.update
  feed : FeedOk s.mem s.update s.feedback
  log : Log.Justified ForwardOk s.mem.log

theorem Sequential.turns [DecidableEq G] {s s' : State G W} {a : Action G W}
    (hseq : Sequential s a) (h : navStep s a = some s') (hs : s.exec = .idle ∨ s.update = .idle) :
    s'.exec = .idle ∨ s'.update = .idle := by
  cases navStep_moves h with
  | call => exact .inr hseq
  | exec busy => exact .inr (hs.resolve_left busy)
  | update => exact .inl (Exec.isIdle_iff.mp hseq)
  | recvStatus | status | recvFeedback | feedback => exact hs

theorem FeedInv.step [DecidableEq G] {s s' : State G W} {a : Action G W} (hseq : Sequential s a)
    (hP : Watches s a) (h : navStep s a = some s') (hs : FeedInv s) : FeedInv s' := by
  refine ⟨hs.nav.step h, hseq.turns h hs.turns, follows_current_step h hs.follows,
    hs.watched.step hP hseq h hs.nav hs.turns hs.follows,
    hs.feed.step hseq h hs.nav hs.turns hs.watched, ?_⟩
  have hadds := (navStep_moves h).adds hs.nav
  generalize s'.mem.log = l at hadds
  cases hadds with
  | bland grows => exact grows.justified forwardOk_of_bland hs.log
  | followed _ grows | refused _ grows =>
      exact grows.justified forwardOk_of_bland ⟨trivial, hs.log⟩
  | followedEmpty _ grows => exact grows.justified forwardOk_of_bland ⟨trivial, trivial, hs.log⟩
  | @arrival i p fb hu =>
      have hx : s.update.forwards? = some (p, fb) := by rw [hu]; rfl
      obtain ⟨hsrc, hlt⟩ := hs.feed.forwards hx
      exact ⟨⟨hs.watched.forwards hx, hsrc, fun _ _ ha => hlt ha⟩, hs.log⟩
  | consumed | replan | status | finished | flagged => exact ⟨trivial, hs.log⟩
  | feedback => exact ⟨fun _ _ hn => hs.feed.numbered hn, hs.log⟩

theorem FeedInv.start : FeedInv (navStart : State G W) where
  nav := .start
  turns := .inl rfl
  follows := fun _ hp => by cases hp
  watched := ⟨nofun, nofun, nofun, nofun⟩
  feed := by
    refine ⟨nofun, trivial, nofun, fun h => ?_, nofun, nofun⟩
    rcases h with ⟨_, _, ha, _⟩ | ⟨_, _, he, _⟩
    · cases ha
    · cases he
  log := trivial

/-- **Feedback and success are attributed to their goal.**  In runs whose calls and updates take
turns, and where `follow_new_path([])` leaves no watched session behind, an update calls only the
estimator of the current path, with what a message for that path's goal said, each message at most
once and in order of receipt; and `status_callback` takes only the completion callback of the call
that drew the goal it found. -/
theorem forwarded_is_current [DecidableEq G] {t : State G W}
    (h : (navigation G W).Reach (fun s a => Sequential s a ∧ Watches s a) t) :
    Log.Justified ForwardOk t.mem.log ∧
      ∀ k x κ, t.finds k = some x → t.taken x = some (.completion κ) →
        .goal κ.call x.goal (some κ) ∈ t.mem.log := by
  have hinv : FeedInv t := h.invariant .start fun _ _ _ hP hstep hs => hs.step hP.1 hP.2 hstep
  refine ⟨hinv.log, fun k x κ hx hc => ?_⟩
  obtain ⟨_, -, hg, -⟩ := State.finds_eq_some.mp hx
  exact hinv.nav.nav.mem.goal_of_completion hg (completion_of_closureFor hc).2

/-- Two feedback messages for the goal of path 0 arrive, and each is drained by an update. -/
def watching : List (Action ℕ ℕ) :=
  following ++ [.recvFeedback ⟨7, 0, 4, 0⟩, .feedback, .feedback, .feedback, .feedback,
    .feedback, .feedback, .feedback, .update, .update, .update, .update, .update, .update, .update,
    .update, .update, .recvFeedback ⟨7, 1, 2, 0⟩, .feedback, .feedback, .feedback, .feedback,
    .feedback, .feedback, .feedback, .update, .update, .update, .update, .update, .update]

theorem forwarded_is_current_watching :
    ∃ t, (navigation ℕ ℕ).Run (fun s a => Sequential s a ∧ Watches s a) navStart watching t ∧
      t.mem.log.head? = some (.arrival 0 ⟨1, 2, 1⟩) ∧ Log.Justified ForwardOk t.mem.log := by
  obtain ⟨t, ht, hq⟩ := Lts.exists_run (navigation ℕ ℕ)
    (fun s a => Sequential s a ∧ Watches s a) navStart watching
    (fun t => t.mem.log.head? == some (.arrival 0 ⟨1, 2, 1⟩)) (by decide)
  exact ⟨t, ht, beq_iff_eq.mp hq, (forwarded_is_current ⟨_, ht⟩).1⟩

/-- RMF gives an empty path while feedback for path 0 is buffered; the next update hands it to the
estimator of path 0. -/
theorem forwarded_not_current :
    ¬ ∀ t : State ℕ ℕ, (navigation ℕ ℕ).Reach Sequential t →
      Log.Justified ForwardOk t.mem.log := by
  intro h
  obtain ⟨t, ht, hq⟩ := Lts.exists_run (navigation ℕ ℕ) Sequential navStart
    (watching.take 15 ++ [.call (.followNewPath [] [] true true ⟨8, true, some true⟩),
      .update, .update, .update, .update, .update, .update])
    (fun t => t.mem.log.head? == some (.arrival 0 ⟨0, 4, 0⟩) &&
      currentPath t.mem.log.tail != some 0) (by decide)
  simp only [Bool.and_eq_true, beq_iff_eq, bne_iff_ne] at hq
  obtain ⟨hhead, hcur⟩ := hq
  obtain ⟨l, hl⟩ := List.head?_eq_some_iff.mp hhead
  have hr := h t ⟨_, ht⟩
  rw [hl] at hr hcur
  exact hcur hr.1.1

end EgbFleet
