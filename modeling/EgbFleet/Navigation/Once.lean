import EgbFleet.Navigation.Invariant
import EgbFleet.Support.Logs
import Mathlib.Algebra.Order.Ring.Nat

/-!
# Navigation — a completion callback is invoked at most once

`execute_path` fires its callback when there is no session and when the goal is not accepted, and
`status_callback` when the goal succeeds.  What keeps this to one invocation is that whoever takes
the callback out of a session leaves none behind.  The branch for a goal that is not accepted only
sets `done`, which `status_callback` does not read.

`invoked_at_most_once`: when `status_callback` meets no `SUCCEEDED` in a session whose `done` is
set (`Undone`), no call's callback is invoked twice.  The proof counts tokens: the invocations in
the log, the closures about to be entered, and the one a session may still give up.
-/

namespace EgbFleet

variable {G W : Type}

/-! ### Tokens -/

def Event.invokes (c : CallId) : Event G W → Bool
  | .invoked (.completion k) => k.call == c
  | _ => false

/-- How often the completion callback of call `c` has been invoked. -/
def invocations (h : List (Event G W)) (c : CallId) : Nat := h.countP (·.invokes c)

def Firing.enters (c : CallId) : Firing → Bool
  | .enter (.completion k) => k.call == c
  | _ => false

def Exec.pending (c : CallId) : Exec G W → Bool
  | .fire _ _ f => f.enters c
  | _ => false

def StatusThread.pending (c : CallId) : StatusThread G → Bool
  | .fire _ f => f.enters c
  | _ => false

/-- The invocations of call `c`'s callback, and those about to happen; `n` counts the ones of the
status callbacks. -/
def tokens (n : CallId → Nat) (m : Mem G W) (e : Exec G W) (c : CallId) : Nat :=
  invocations m.log c + (e.pending c).toNat + n c

/-- A session that can still give up a callback is the only one to have it, and it has not been
invoked and is not about to be. -/
structure TokenOk (n : CallId → Nat) (m : Mem G W) (e : Exec G W) : Prop where
  le : ∀ c, tokens n m e c ≤ 1
  armed : ∀ i k, (m.sessions i).completionCallback = some k → (m.sessions i).done = false →
    tokens n m e k.call = 0
  unique : ∀ i i' k k', (m.sessions i).completionCallback = some k →
    (m.sessions i').completionCallback = some k' → k.call = k'.call → i = i'
  ready : ∀ j i, e = .install j i → tokens n m e j.call = 0 ∧
    ∀ i' k, (m.sessions i').completionCallback = some k → k.call ≠ j.call
  fresh : ∀ c, m.nextCall ≤ c → tokens n m e c = 0

def Exec.installs : Exec G W → Bool
  | .install _ _ => true
  | _ => false

theorem invocations_record {e : Event G W} {h : List (Event G W)} {c : CallId}
    (he : e.invokes c = false) : invocations (e :: h) c = invocations h c :=
  List.countP_cons_of_neg (by simp [he])

theorem invocations_returnFrom (r : Caller) (m : Mem G W) (c : CallId) :
    invocations (m.returnFrom r).log c = invocations m.log c := by
  cases r with
  | follow p | undock a => exact invocations_record rfl
  | dock => rfl

theorem Firing.countP_invokes (f : Firing) (c : CallId) :
    (f.tells : List (Event G W)).countP (·.invokes c) = (f.enters c).toNat := by
  cases f with
  | enter k =>
      have hlast : ([.invoked k] : List (Event G W)).countP (·.invokes c) =
          (Firing.enters c (.enter k)).toNat := by
        cases k with
        | completion k => cases hk : k.call == c <;> simp [Event.invokes, Firing.enters, hk]
        | failure p => rfl
      rw [Firing.tells, List.countP_append, hlast, Nat.add_eq_right]
      rcases k with ⟨_, ⟨p, _ | _⟩ | _ | _⟩ | p <;> rfl
  | reset t | report t => rcases t with ⟨p, _ | _⟩ | p <;> rfl

/-- A closure that is entered is invoked, and no longer about to be. -/
theorem ClosureStep.tokens {alive : SessionId → Bool} {f : Firing} {f' : Option Firing}
    {m m' : Mem G W} (h : ClosureStep alive f m m' f') (c : CallId) :
    invocations m'.log c + (f'.any (·.enters c)).toNat =
      invocations m.log c + (f.enters c).toNat := by
  have hcount := h.countP (·.invokes c)
  rw [f.countP_invokes] at hcount
  cases f' with
  | none => exact hcount
  | some f' => rwa [Option.elim_some, f'.countP_invokes] at hcount

/-! ### The executor -/

/-- A step that puts no callback into a session and moves no token. -/
theorem TokenOk.next {n n' : CallId → Nat} {m m' : Mem G W} {e e' : Exec G W}
    (hm : TokenOk n m e)
    (hσ : ∀ i k, (m'.sessions i).completionCallback = some k →
      (m.sessions i).completionCallback = some k ∧
        ((m'.sessions i).done = false → (m.sessions i).done = false))
    (hn : m.nextCall ≤ m'.nextCall) (ht : ∀ c, tokens n' m' e' c = tokens n m e c)
    (he : e'.installs = true → e' = e) : TokenOk n' m' e' where
  le := fun c => (ht c).trans_le (hm.le c)
  armed := fun i k hk hd => (ht _).trans (hm.armed i k (hσ i k hk).1 ((hσ i k hk).2 hd))
  unique := fun i i' k k' hk hk' => hm.unique i i' k k' (hσ i k hk).1 (hσ i' k' hk').1
  ready := fun j i hj =>
    let ⟨h₀, h₁⟩ := hm.ready j i (he (by rw [hj]; rfl) ▸ hj)
    ⟨(ht _).trans h₀, fun i' k hk => h₁ i' k (hσ i' k hk).1⟩
  fresh := fun c hc => (ht c).trans (hm.fresh c (hn.trans hc))

theorem Tame.completions {m m' : Mem G W} (h : Tame m m') (i : SessionId) (k : Completion)
    (hk : (m'.sessions i).completionCallback = some k) :
    (m.sessions i).completionCallback = some k ∧
      ((m'.sessions i).done = false → (m.sessions i).done = false) := by
  rcases h.sessions i with e | e
  · exact ⟨e.completion ▸ hk, fun hd => e.done ▸ hd⟩
  · rw [e.completion] at hk; cases hk

/-- A tame step of the executor that is not about a closure. -/
theorem TokenOk.tame {n : CallId → Nat} {m m' : Mem G W} {e e' : Exec G W} (hm : TokenOk n m e)
    (h : Tame m m') (hl : ∀ c, invocations m'.log c = invocations m.log c)
    (hp : ∀ c, e'.pending c = e.pending c) (he : e'.installs = true → e' = e) :
    TokenOk n m' e' :=
  hm.next h.completions h.goals.nextCall (fun c => by unfold tokens; rw [hl, hp]) he

theorem TokenOk.draw {n : CallId → Nat} {m : Mem G W} {e : Exec G W} (hm : TokenOk n m e)
    (hp : ∀ c, e.pending c = false) (r : PathRequest G W) : TokenOk n (m.drawGoal r) .idle :=
  hm.next (fun _ _ hk => ⟨hk, id⟩) (Nat.le_succ _)
    (fun c => by
      unfold tokens
      rw [hp, Mem.drawGoal_log, invocations_record rfl]
      rfl)
    nofun

theorem MemOk.call_lt {m : Mem G W} (hm : MemOk m) {i : SessionId} {k : Completion}
    (hk : (m.sessions i).completionCallback = some k) : k.call < m.nextCall := by
  cases hg : (m.sessions i).goalId with
  | none => exact absurd hg ((hm.sessions i).completion k hk)
  | some g =>
      obtain ⟨⟨c, hc⟩, -⟩ := (hm.sessions i).goal g hg
      rw [hk] at hc
      exact hm.goals.tagged hc ▸ hm.goals.call_lt hc

theorem PathStep.tokens {alive : SessionId → Bool} {r : PathRequest G W} {m m' : Mem G W}
    {e e' : Exec G W} {n : CallId → Nat} (h : PathStep alive r m m' e') (hm : TokenOk n m e)
    (hp : ∀ c, e.pending c = false) (hmem : MemOk m) : TokenOk n m' e' := by
  have hd := hm.draw hp r
  have hfresh : EgbFleet.tokens n (m.drawGoal r) .idle m.nextCall = 0 := by
    have h₀ := hm.fresh m.nextCall le_rfl
    unfold EgbFleet.tokens at h₀ ⊢
    rw [Mem.drawGoal_log, invocations_record rfl]
    rw [hp] at h₀
    exact h₀
  cases h with
  | locked hi =>
      refine ⟨hd.le, hd.armed, hd.unique, ?_, hd.fresh⟩
      rintro j i ⟨⟩
      exact ⟨hfresh, fun i' k hk => (hmem.call_lt hk).ne⟩
  | @lost k lanes hi hk =>
      -- the closure that is fired is the one token of the new call
      have htok (c : CallId) : EgbFleet.tokens n (m.drawGoal r)
          (.fire ⟨r, m.nextCall, lanes⟩ none (.enter (.completion ⟨m.nextCall, k⟩))) c =
          EgbFleet.tokens n (m.drawGoal r) .idle c + (m.nextCall == c).toNat := by
        simp only [EgbFleet.tokens, Exec.pending, Firing.enters, Bool.toNat_false]
        omega
      refine ⟨fun c => ?_, fun i k hk hd' => ?_, hd.unique, nofun,
        fun c hc => ?_⟩
      · rw [htok]
        by_cases hc : m.nextCall = c
        · subst hc; rw [hfresh]; simp
        · rw [beq_eq_false_iff_ne.mpr hc]; exact hd.le c
      · rw [htok, hd.armed i k hk hd', beq_eq_false_iff_ne.mpr (hmem.call_lt hk).ne']
        rfl
      · rw [htok, hd.fresh c hc, beq_eq_false_iff_ne.mpr (Nat.ne_of_lt hc)]
        rfl
  | lostSilent hi hk =>
      exact hd.tame (.returnFrom _ _) (invocations_returnFrom _ _) (fun _ => rfl)
        nofun

/-- The executor installs a callback that nobody else has. -/
theorem TokenOk.install {n : CallId → Nat} {m : Mem G W} {j : PathJob G W} {i : SessionId}
    (hm : TokenOk n m (.install j i)) :
    TokenOk n (m.modify i (.install j.request.net.goalId j.completion j.request.estimator))
      (.sendGoal j i) := by
  obtain ⟨h₀, hne⟩ := hm.ready j i rfl
  have call {k} (hk : j.completion = some k) : k.call = j.call := by
    obtain ⟨kind, -, rfl⟩ := Option.map_eq_some_iff.mp hk
    rfl
  refine ⟨hm.le, fun i' k hk hd => ?_, fun i₁ i₂ k₁ k₂ hk₁ hk₂ hc => ?_, nofun,
    hm.fresh⟩
  · by_cases e : i' = i
    · subst e
      rw [Mem.sessions_modify_self] at hk
      exact call hk ▸ h₀
    · rw [Mem.sessions_modify_of_ne _ _ _ e] at hk hd
      exact hm.armed i' k hk hd
  · by_cases e₁ : i₁ = i <;> by_cases e₂ : i₂ = i
    · rw [e₁, e₂]
    · subst e₁
      rw [Mem.sessions_modify_self] at hk₁
      rw [Mem.sessions_modify_of_ne _ _ _ e₂] at hk₂
      exact absurd (hc.symm.trans (call hk₁)) (hne i₂ k₂ hk₂)
    · subst e₂
      rw [Mem.sessions_modify_self] at hk₂
      rw [Mem.sessions_modify_of_ne _ _ _ e₁] at hk₁
      exact absurd (hc.trans (call hk₂)) (hne i₁ k₁ hk₁)
    · rw [Mem.sessions_modify_of_ne _ _ _ e₁] at hk₁
      rw [Mem.sessions_modify_of_ne _ _ _ e₂] at hk₂
      exact hm.unique i₁ i₂ k₁ k₂ hk₁ hk₂ hc

/-- Callback `k` is copied out of session `i`, which cannot give it up again. -/
theorem TokenOk.take {n n' : CallId → Nat} {m m' : Mem G W} {e e' : Exec G W} {i : SessionId}
    {k : Completion} (hm : TokenOk n m e) (hk : (m.sessions i).completionCallback = some k)
    (hd : (m.sessions i).done = false) (hlt : k.call < m.nextCall)
    (hσ : ∀ i' k', (m'.sessions i').completionCallback = some k' →
      (m.sessions i').completionCallback = some k' ∧
        ((m'.sessions i').done = false → (m.sessions i').done = false ∧ i' ≠ i))
    (hn : m.nextCall ≤ m'.nextCall)
    (ht : ∀ c, tokens n' m' e' c = tokens n m e c + (k.call == c).toNat)
    (he : e'.installs = true → e' = e) : TokenOk n' m' e' where
  le := fun c => by
    rw [ht]
    by_cases hc : k.call = c
    · rw [← hc, hm.armed i k hk hd, beq_self_eq_true]; decide
    · rw [beq_eq_false_iff_ne.mpr hc]; exact hm.le c
  armed := fun i' k' hk' hd' => by
    obtain ⟨hk₀, hd₀⟩ := hσ i' k' hk'
    have hne : k.call ≠ k'.call := fun hc => (hd₀ hd').2 (hm.unique _ _ _ _ hk hk₀ hc).symm
    rw [ht, hm.armed i' k' hk₀ (hd₀ hd').1, beq_eq_false_iff_ne.mpr hne]
    rfl
  unique := fun i₁ i₂ k₁ k₂ hk₁ hk₂ => hm.unique i₁ i₂ k₁ k₂ (hσ _ _ hk₁).1 (hσ _ _ hk₂).1
  ready := fun j i' hj => by
    obtain ⟨h₀, h₁⟩ := hm.ready j i' (he (by rw [hj]; rfl) ▸ hj)
    refine ⟨?_, fun i' k' hk' => h₁ i' k' (hσ i' k' hk').1⟩
    rw [ht, h₀, beq_eq_false_iff_ne.mpr (h₁ i k hk)]
    rfl
  fresh := fun c hc => by
    rw [ht, hm.fresh c (hn.trans hc), beq_eq_false_iff_ne.mpr (hlt.trans_le (hn.trans hc)).ne]
    rfl

theorem completions_modify {m : Mem G W} {i : SessionId}
    {f : NavigationSession G → NavigationSession G}
    (hc : (f (m.sessions i)).completionCallback = (m.sessions i).completionCallback)
    (hd : (f (m.sessions i)).done = (m.sessions i).done) (i' : SessionId) (k : Completion)
    (hk : ((m.modify i f).sessions i').completionCallback = some k) :
    (m.sessions i').completionCallback = some k ∧
      (((m.modify i f).sessions i').done = false → (m.sessions i').done = false) := by
  revert hk
  exact Mem.sessions_modify_rec i f m i' (fun hk => ⟨hc ▸ hk, fun h => hd ▸ h⟩) fun _ hk => ⟨hk, id⟩

theorem completions_markDone {m : Mem G W} {i : SessionId} (i' : SessionId) (k : Completion)
    (hk : ((m.modify i .markDone).sessions i').completionCallback = some k) :
    (m.sessions i').completionCallback = some k ∧
      (((m.modify i .markDone).sessions i').done = false →
        (m.sessions i').done = false ∧ i' ≠ i) := by
  revert hk
  exact Mem.sessions_modify_rec i .markDone m i' (fun hk => ⟨hk, nofun⟩)
    fun e hk => ⟨hk, fun h => ⟨h, e⟩⟩

theorem ExecStep.tokens {alive : SessionId → Bool} {e e' : Exec G W} {m m' : Mem G W}
    {n : CallId → Nat} (h : ExecStep alive e m m' e') (hnav : NavOk m e) (hm : TokenOk n m e) :
    TokenOk n m' e' := by
  have quiet {m₁ : Mem G W} (ht : Tame m m₁) (hl : ∀ c, invocations m₁.log c = invocations m.log c)
      (he : ∀ c, e.pending c = false) : TokenOk n m₁ .idle :=
    hm.tame ht hl (fun c => (he c).symm) nofun
  cases h with
  | invalidateOld =>
      exact hm.tame (.invalidate _ _) (fun _ => rfl) (fun _ => rfl) nofun
  | armSession =>
      refine hm.next (completions_modify rfl rfl) le_rfl (fun c => ?_) nofun
      unfold EgbFleet.tokens
      rw [Mem.modify_log, Mem.record_log, invocations_record rfl]
      rfl
  | setSession =>
      exact hm.next (fun _ _ hk => ⟨hk, id⟩) le_rfl (fun _ => rfl) nofun
  | executePath h => exact h.tokens hm (fun _ => rfl) hnav.mem
  | install => exact hm.install
  | handOver =>
      exact hm.tame (.record _ rfl) (fun _ => invocations_record rfl) (fun _ => rfl)
        nofun
  | accepted =>
      exact quiet (.returnFrom _ _) (fun c => invocations_returnFrom _ _ c) fun _ => rfl
  | refused => exact hm.tame (.refl _) (fun _ => rfl) (fun _ => rfl) nofun
  | @notAccepted j i k m hk =>
      have hd : (m.sessions i).done = false := by
        rcases hnav.exec.2 with hg | ⟨-, -, hd⟩
        · exact absurd hg ((hnav.mem.sessions i).completion k hk)
        · exact hd
      refine hm.take hk hd (hnav.mem.call_lt hk) completions_markDone le_rfl (fun c => ?_)
        nofun
      simp only [EgbFleet.tokens, Exec.pending, Firing.enters, Mem.modify_log, Bool.toNat_false]
      omega
  | @notAcceptedSilent j i m hk =>
      have h₁ : TokenOk n (m.modify i .markDone) .idle :=
        hm.next (fun i' k h => ⟨(completions_markDone i' k h).1,
          fun hd => ((completions_markDone i' k h).2 hd).1⟩) le_rfl (fun _ => rfl)
          nofun
      exact h₁.tame (.returnFrom _ _) (invocations_returnFrom _ _) (fun _ => rfl)
        nofun
  | fire h =>
      refine hm.next h.tame.completions h.tame.goals.nextCall (fun c => ?_) nofun
      have hc := h.tokens c
      simp only [Option.any_some] at hc
      simp only [EgbFleet.tokens, Exec.pending]
      omega
  | @fired j i f m m₁ h =>
      have ht := h.tame.trans (.returnFrom j.request.caller m₁)
      refine hm.next ht.completions ht.goals.nextCall (fun c => ?_) nofun
      have hc := h.tokens c
      simp only [Option.any_none, Bool.toNat_false] at hc
      simp only [EgbFleet.tokens, Exec.pending, invocations_returnFrom, Bool.toNat_false]
      omega
  | stopCancel | cancel =>
      split
      · exact hm.tame (.invalidate _ _) (fun _ => rfl) (fun _ => rfl) nofun
      · exact hm.tame (.refl _) (fun _ => rfl) (fun _ => rfl) nofun
  | stopInvalidate =>
      exact hm.tame (.invalidate _ _) (fun _ => rfl) (fun _ => rfl) nofun
  | stopReset =>
      exact hm.tame (.setSession _) (fun _ => rfl) (fun _ => rfl) nofun
  | stopClear =>
      exact quiet (((Tame.setPendingFailure m false).trans (.record _ rfl)).trans (.record _ rfl))
        (fun c => (invocations_record rfl).trans (invocations_record rfl)) fun _ => rfl
  | stopRead | stopReadNone =>
      exact hm.tame (.refl _) (fun _ => rfl) (fun _ => rfl) nofun

theorem TokenOk.newSession {n : CallId → Nat} {m : Mem G W} (hm : TokenOk n m .idle)
    (limits : List ℚ) : TokenOk n (m.newSession limits) .idle := by
  refine hm.next (fun i k => ?_) le_rfl (fun _ => rfl) nofun
  exact Mem.sessions_newSession_rec m limits i nofun fun _ hk => ⟨hk, id⟩

theorem CallStep.tokens {alive : SessionId → Bool} {c : Call G W} {e' : Exec G W} {m m' : Mem G W}
    {n : CallId → Nat} (h : CallStep alive c m m' e') (hnav : NavOk m .idle)
    (hm : TokenOk n m .idle) : TokenOk n m' e' := by
  have record {m : Mem G W} (hm : TokenOk n m .idle) (ev : Event G W) (he : ev.quiet = true)
      (hi : ∀ c, ev.invokes c = false) : TokenOk n (m.record ev) .idle :=
    hm.tame (.record m he) (fun c => invocations_record (hi c)) (fun _ => rfl)
      nofun
  cases h with
  | @followEmpty limits est fin net m =>
      have h₁ := record (hm.newSession limits) (.followed m.nextSession []) rfl fun _ => rfl
      refine record ?_ _ rfl fun _ => rfl
      split
      · exact record h₁ _ rfl fun _ => rfl
      · exact h₁
  | @follow ws limits est fin net m hws hs | @followOver ws limits est fin net old m hws hs =>
      have h₁ := record (hm.newSession limits) (.followed m.nextSession ws) rfl fun _ => rfl
      exact h₁.next (fun _ _ hk => ⟨hk, id⟩) le_rfl (fun _ => rfl) nofun
  | stop | stopNone | cancelNavigation | cancelNone =>
      exact hm.tame (.record _ rfl) (fun _ => invocations_record rfl) (fun _ => rfl)
        nofun
  | noDock =>
      split
      · exact record hm _ rfl fun _ => rfl
      · exact hm
  | @dock ws fin net m m' e' h =>
      have ht : Tame m (m.record (.dockPlanned m.nextCall ws)) := .record _ rfl
      exact h.tokens (record hm _ rfl fun _ => rfl) (fun _ => rfl) (ht.memOk hnav.mem)
  | @undock a env ws net m m' e' ha _ _ _ h =>
      have ht : Tame m (m.record (.undockPlanned a m.nextCall ws)) := .record _ rfl
      exact h.tokens (record hm _ rfl fun _ => rfl) (fun _ => rfl) (ht.memOk hnav.mem)
  | undockReturns =>
      exact hm.tame ((Tame.setUndock _ _ _).trans (.record _ rfl))
        (fun _ => invocations_record rfl) (fun _ => rfl) nofun

/-! ### The other threads -/

theorem UpdateStep.invocations {u u' : UpdateThread} {m m' : Mem G W} (h : UpdateStep u m m' u')
    (c : CallId) : invocations m'.log c = invocations m.log c := by
  cases h with
  | read | drainTake => rfl
  | drainForward | takeFailure | replan => exact invocations_record rfl

/-- The tokens the status callbacks are about to spend. -/
def pendingStatus (l : List (StatusThread G)) (c : CallId) : Nat := l.countP (·.pending c)

theorem pendingStatus_set {l : List (StatusThread G)} {k : Nat} {t : StatusThread G}
    (h : l[k]? = some t) (t' : StatusThread G) (c : CallId) :
    pendingStatus (l.set k t') c + (t.pending c).toNat =
      pendingStatus l c + (t'.pending c).toNat :=
  Log.countP_set h t' (·.pending c)

/-- `status_callback` takes no completion callback out of a session whose `done` is set. -/
def Undone [DecidableEq G] (s : State G W) : Action G W → Prop
  | .status k => ∀ x ∈ s.finds k, ∀ c ∈ s.taken x,
      x.status = .succeeded → (s.mem.sessions x.session).done = false
  | _ => True

instance [DecidableEq G] (s : State G W) : ∀ a, Decidable (Undone s a)
  | .status k => inferInstanceAs (Decidable (∀ x ∈ s.finds k, ∀ c ∈ s.taken x,
      x.status = .succeeded → (s.mem.sessions x.session).done = false))
  | .call _ | .exec | .update | .recvStatus _ | .recvFeedback _ | .feedback =>
      inferInstanceAs (Decidable True)

theorem pending_of_ne {t : StatusThread G} (h : ∀ i f, t ≠ .fire i f) (c : CallId) :
    t.pending c = false := by
  cases t with
  | fire i f => exact absurd rfl (h i f)
  | lock _ | process _ _ | done => rfl

theorem StatusStep.tokens [DecidableEq G] {alive : SessionId → Bool} {t t' : StatusThread G}
    {m m' : Mem G W} {e : Exec G W} {n n' : CallId → Nat} (h : StatusStep alive t m m' t')
    (hmem : MemOk m) (hm : TokenOk n m e)
    (hn : ∀ c, n' c + (t.pending c).toNat = n c + (t'.pending c).toNat)
    (hdone : ∀ i entries g, t = .process i entries → (m.sessions i).goalId = some g →
      entries.find g = some .succeeded → (m.sessions i).completionCallback ≠ none →
      (m.sessions i).done = false) : TokenOk n' m' e := by
  -- a step that takes nothing keeps every token where it is
  have still {m' : Mem G W} (ht : Tame m m')
      (hl : ∀ c, invocations m'.log c + n' c = invocations m.log c + n c) : TokenOk n' m' e := by
    refine hm.next ht.completions ht.goals.nextCall (fun c => ?_) fun _ => rfl
    have := hl c
    unfold EgbFleet.tokens
    omega
  cases h with
  | quiet ht ht' =>
      refine still (.refl m) fun c => ?_
      have := hn c
      rw [pending_of_ne ht, pending_of_ne ht'] at this
      exact congrArg (invocations m.log c + ·) this
  | silent hg hst hc =>
      refine still (.status _ hg) fun c => ?_
      rw [show n' c = n c from hn c]
      split <;> exact congrArg (· + n c) (invocations_record rfl)
  | @take i entries g st c₀ m hg hst hc =>
      have ht := Tame.status st hg
      rw [terminal_of_closureFor hc, if_pos rfl] at ht
      cases c₀ with
      | failure p =>
          refine still ht fun c => ?_
          rw [show n' c = n c from hn c]
          exact congrArg (· + n c) (invocations_record rfl)
      | completion k =>
          obtain ⟨rfl, hk⟩ := completion_of_closureFor hc
          have hd := hdone i entries g rfl hg hst (by rw [hk]; exact Option.some_ne_none k)
          refine hm.take hk hd (hmem.call_lt hk) (fun i' k' hk' => ?_) le_rfl (fun c => ?_)
            fun _ => rfl
          · refine ⟨(ht.completions i' k' hk').1, fun hd' => ⟨(ht.completions i' k' hk').2 hd', ?_⟩⟩
            rintro rfl
            rw [Mem.sessions_modify_self] at hd'
            cases hd'
          · have hc := hn c
            simp only [StatusThread.pending, Firing.enters, Bool.toNat_false] at hc
            simp only [EgbFleet.tokens, Mem.modify_log, Mem.record_log]
            rw [invocations_record rfl]
            omega
  | fire h =>
      refine still h.tame fun c => ?_
      have hc := h.tokens c
      have hc' := hn c
      simp only [StatusThread.pending, Option.any_some] at hc hc'
      omega
  | fired h =>
      refine still h.tame fun c => ?_
      have hc := h.tokens c
      have hc' := hn c
      simp only [StatusThread.pending, Option.any_none, Bool.toNat_false] at hc hc'
      omega

/-! ### Every run -/

/-- The invariant of the tokens. -/
structure OnceInv (s : State G W) : Prop where
  nav : NavInv s
  tokens : TokenOk (pendingStatus s.status) s.mem s.exec

theorem OnceInv.step [DecidableEq G] {s s' : State G W} {a : Action G W} (hP : Undone s a)
    (h : navStep s a = some s') (hs : OnceInv s) : OnceInv s' := by
  refine ⟨hs.nav.step h, ?_⟩
  cases navStep_moves h with
  | call c idle fresh =>
      exact (callStep s.alive c s.mem).tokens (idle ▸ hs.nav.nav) (idle ▸ hs.tokens)
  | exec busy => exact (execStep s.alive busy s.mem).tokens hs.nav.nav hs.tokens
  | update =>
      have hu := updateStep s.update s.mem
      exact hs.tokens.tame hu.zenohStep.toTame hu.invocations (fun _ => rfl) fun _ => rfl
  | recvStatus entries =>
      have hn : pendingStatus (s.status ++ [.lock entries]) = pendingStatus s.status := by
        funext c
        unfold pendingStatus
        rw [List.countP_append]
        rfl
      exact hn ▸ hs.tokens
  | status k t at_k =>
      refine (statusStep s.alive t s.mem).tokens hs.nav.nav.mem hs.tokens
        (pendingStatus_set at_k _) fun i entries g ht hg hst hk => ?_
      obtain ⟨k', hk⟩ := Option.ne_none_iff_exists'.mp hk
      refine hP ⟨i, g, .succeeded⟩ (State.finds_eq_some.mpr ⟨entries, ht ▸ at_k, hg, hst⟩)
        (.completion k') ?_ rfl
      exact Option.map_eq_some_iff.mpr ⟨k', hk, rfl⟩
  | recvFeedback msg idle =>
      have h₁ : Tame s.mem s.mem.newReceipt := .of_log (.of_log rfl le_rfl le_rfl) rfl rfl rfl id
      exact hs.tokens.tame (h₁.trans (.record _ rfl)) (fun _ => invocations_record rfl)
        (fun _ => rfl) fun _ => rfl
  | feedback =>
      exact hs.tokens.tame (FeedbackThread.zenohStep s.alive s.feedback s.mem).toTame
        (fun c => by cases ht : s.feedback <;> rfl) (fun _ => rfl) fun _ => rfl

theorem OnceInv.start : OnceInv (navStart : State G W) where
  nav := .start
  tokens := ⟨fun _ => Nat.zero_le _, nofun, nofun,
    nofun, fun _ _ => rfl⟩

/-- **At most once.**  The completion callback passed to one call of `execute_path` is invoked at
most once, in runs where `status_callback` takes none out of a session whose `done` is set. -/
theorem invoked_at_most_once [DecidableEq G] {t : State G W}
    (h : (navigation G W).Reach Undone t) (c : CallId) : invocations t.mem.log c ≤ 1 := by
  have hinv : OnceInv t := h.invariant .start fun _ _ _ hP hstep hs => hs.step hP hstep
  refine le_trans ?_ (hinv.tokens.le c)
  unfold tokens
  omega

theorem invoked_at_most_once_arrival :
    ∃ t, (navigation ℕ ℕ).Run Undone navStart arrival t ∧ invocations t.mem.log 0 = 1 ∧
      invocations t.mem.log 0 ≤ 1 := by
  obtain ⟨t, ht, hq⟩ := Lts.exists_run (navigation ℕ ℕ) Undone navStart arrival
    (fun t => invocations t.mem.log 0 == 1) (by decide)
  exact ⟨t, ht, beq_iff_eq.mp hq, invoked_at_most_once ⟨_, ht⟩ 0⟩

/-- The query for an undock manoeuvre's goal times out, so `docking_finished_callback` is called;
the robot has the goal all the same, and reports success. -/
theorem invoked_twice :
    ¬ ∀ t : State ℕ ℕ, (navigation ℕ ℕ).Reach (fun _ _ => True) t →
      ∀ c, invocations t.mem.log c ≤ 1 := by
  intro h
  obtain ⟨t, ht, hq⟩ := Lts.exists_run (navigation ℕ ℕ) (fun _ _ => True) navStart
    (following ++ [.call (.dock (some [4, 5]) true ⟨9, true, none⟩), .exec, .exec, .exec,
      .exec, .exec, .recvStatus [(9, .succeeded)], .status 0, .status 0, .status 0])
    (fun t => invocations t.mem.log 1 == 2) (by decide)
  have := h t ⟨_, ht⟩ 1
  rw [beq_iff_eq.mp hq] at this
  omega

end EgbFleet
