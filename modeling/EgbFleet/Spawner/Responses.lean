import EgbFleet.Spawner.Processes

/-!
# Spawner — what a batch is answered

A batch request names several fleets, and its response has an array of successes and one of
messages.  The callbacks append to both, entry by entry.  If an exception ends the callback, its
handler fills the arrays in, one failure an entry; but only if they are still empty.

So a response is as long as the request, and answers each entry in its place, unless the
constructor raises at an entry that is not the first, `response_answers_iff`.  Nothing else that a
callback calls lets an exception through.
-/

namespace EgbFleet.Spawner

open FleetAdapterProcessManager

/-! ### What is to hold -/

inductive Request where
  | start (fleetNames : List String)
  | stop (fleetNames : List String)

def Request.fleetNames : Request → List String
  | .start fleetNames | .stop fleetNames => fleetNames

def Request.action : Request → SpawnerAction
  | .start fleetNames => .startFleetAdapters fleetNames
  | .stop fleetNames => .stopFleetAdapters fleetNames

/-- After the step, `start` of manager `m` has succeeded for entry `i`. -/
def StartsEntry (fleetNames : List String) (i : ℕ) (m : ManagerId) (_ : FleetSpawner)
    (_ : SpawnerAction) (s' : FleetSpawner) : Prop :=
  i < fleetNames.length ∧ ∃ requested response,
    s'.control = .starting requested (fleetNames.drop i) (.started m) response

/-- The step removes the manager of entry `i`, and its process no longer runs. -/
def StopsEntry (fleetNames : List String) (i : ℕ) (s : FleetSpawner) (_ : SpawnerAction)
    (s' : FleetSpawner) : Prop :=
  ∃ fleetName m requested stage response, fleetNames[i]? = some fleetName ∧
    s.control = .stopping requested (fleetNames.drop i) stage response ∧
    (fleetName, m) ∈ s.activeAdapters.entries ∧ (fleetName, m) ∉ s'.activeAdapters.entries ∧
    (s'.managers m).running = false

/-- `T i m` is to say that `start` of manager `m` has succeeded for entry `i`; `m` is stored. -/
def StartedAndStored (fleetNames : List String) (T : ℕ → ManagerId → Prop)
    (active : Dict String ManagerId) (i : ℕ) : Prop :=
  ∃ fleetName m, fleetNames[i]? = some fleetName ∧ T i m ∧ (fleetName, m) ∈ active.entries

/-- Through the actions `as` from `s`, the request has been done for entry `i`: its manager's
process has been started, and the manager is stored in the end; or its manager has been stopped and
removed. -/
def Request.Done (s : FleetSpawner) (as : List SpawnerAction) (active : Dict String ManagerId) :
    Request → ℕ → Prop
  | .start fleetNames =>
      StartedAndStored fleetNames
        (fun i m => fleetSpawner.Takes (StartsEntry fleetNames i m) s as) active
  | .stop fleetNames => fun i => fleetSpawner.Takes (StopsEntry fleetNames i) s as

/-- `n` entries are answered: success to those, and only those, of which `done` holds. -/
structure Response.Answers (r : Response) (n : ℕ) (done : ℕ → Prop) : Prop where
  success : r.success.length = n
  messages : r.messages.length = n
  entry : ∀ i < n, r.success[i]? = some true ↔ done i

/-- A constructor raises, at an entry other than the first. -/
def RaisesLater (s : FleetSpawner) (a : SpawnerAction) (_ : FleetSpawner) : Prop :=
  ∃ o requested fleetName entries response, a = .advance o ∧ o ≠ .ok ∧
    s.control = .starting requested (fleetName :: entries) .next response ∧
    s.activeAdapters.get? fleetName = none ∧ (fleetName :: entries).length < requested

/-! ### Responses -/

theorem Response.Answers.nil (done : ℕ → Prop) : (⟨[], []⟩ : Response).Answers 0 done :=
  ⟨rfl, rfl, fun i hi => absurd hi (Nat.not_lt_zero i)⟩

theorem Response.Answers.append {r : Response} {n : ℕ} {done done' : ℕ → Prop}
    (h : r.Answers n done) (hdone : ∀ i < n, done' i ↔ done i) {success : Bool}
    (hn : success = true ↔ done' n) (message : String) :
    (r.append success message).Answers (n + 1) done' where
  success := by simp [Response.append, h.success]
  messages := by simp [Response.append, h.messages]
  entry := by
    intro i hi
    simp only [Response.append, List.getElem?_append, h.success]
    by_cases hlt : i < n
    · rw [if_pos hlt, hdone i hlt]
      exact h.entry i hlt
    · obtain rfl : i = n := by omega
      simpa using hn

/-- An exception before the first entry is answered. -/
theorem Response.Answers.except {r : Response} {done : ℕ → Prop} (h : r.Answers 0 done)
    {n : ℕ} {done' : ℕ → Prop} (hnone : ∀ i < n, ¬ done' i) (message : String) :
    (r.except n message).Answers n done' := by
  have hempty : r.success.isEmpty = true := by simpa using h.success
  rw [Response.except, hempty, if_pos rfl]
  refine ⟨List.length_replicate, List.length_replicate, fun i hi => ?_⟩
  refine iff_of_false ?_ (hnone i hi)
  simp [hi]

/-- An exception after some entry has been. -/
theorem Response.Answers.not_except {r : Response} {k : ℕ} {done : ℕ → Prop} (h : r.Answers k done)
    (hk : 0 < k) {n : ℕ} (hn : k < n) {done' : ℕ → Prop} (message : String) :
    ¬ (r.except n message).Answers n done' := by
  intro hanswers
  have hempty : r.success.isEmpty = false := by
    rw [List.isEmpty_eq_false_iff, ← List.length_pos_iff, h.success]
    exact hk
  have hlength := hanswers.success
  simp only [Response.except, hempty] at hlength
  exact absurd (hlength.symm.trans h.success) (Nat.ne_of_gt hn)

/-! ### A start request, entry by entry -/

/-- The manager the callback is starting. -/
def StartStage.manager? : StartStage → Option ManagerId
  | .next => none
  | .made m | .spawned m | .started m => some m

/-- The callback has answered `k` entries. -/
structure StartProgress (fleetNames : List String) (T : ℕ → ManagerId → Prop)
    (active : Dict String ManagerId) (next : ManagerId) (k : ℕ) (stage : StartStage)
    (r : Response) : Prop where
  answers : r.Answers k (StartedAndStored fleetNames T active)
  before : ∀ i m, T i m → m < next ∧ (i < k ∨ i = k ∧ stage = .started m)
  started : ∀ m, stage = .started m → T k m
  own : ∀ m, stage.manager? = some m → m < next ∧ ∀ i, T i m → i = k
  new : stage ≠ .next → ∀ fleetName, fleetNames[k]? = some fleetName →
    ∀ e ∈ active.entries, e.1 ≠ fleetName

section

variable {fleetNames : List String} {T : ℕ → ManagerId → Prop} {active : Dict String ManagerId}
  {next m : ManagerId} {k : ℕ} {stage : StartStage} {r : Response}

/-- Nothing has been started yet. -/
theorem StartProgress.start (fleetNames : List String) (hT : ∀ i m, ¬ T i m) :
    StartProgress fleetNames T active next 0 .next ⟨[], []⟩ where
  answers := .nil _
  before := fun i m hi => absurd hi (hT i m)
  started := by
    intro m hm
    cases hm
  own := by
    intro m hm
    cases hm
  new := fun h => absurd rfl h

/-- Before the next manager is started, none is started for this entry. -/
theorem StartProgress.lt (h : StartProgress fleetNames T active next k stage r)
    (hstage : ∀ m, stage ≠ .started m) {i : ℕ} (hT : T i m) : i < k :=
  (h.before i m hT).2.resolve_right fun he => hstage m he.2

/-- The entry is answered with a failure. -/
theorem StartProgress.refuse (h : StartProgress fleetNames T active next k stage r)
    (hstage : ∀ m, stage ≠ .started m) (message : String) :
    StartProgress fleetNames T active next (k + 1) .next (r.append false message) where
  answers := by
    refine h.answers.append (fun _ _ => Iff.rfl) (iff_of_false Bool.false_ne_true ?_) message
    rintro ⟨fleetName, m, -, hT, -⟩
    exact absurd (h.lt hstage hT) (Nat.lt_irrefl k)
  before := fun i m hT =>
    ⟨(h.before i m hT).1, .inl (Nat.lt_succ_of_lt (h.lt hstage hT))⟩
  started := nofun
  own := nofun
  new := fun hnext => absurd rfl hnext

/-- The manager is made. -/
theorem StartProgress.construct (h : StartProgress fleetNames T active next k .next r)
    {fleetName : String} (hname : fleetNames[k]? = some fleetName)
    (hnone : active.get? fleetName = none) :
    StartProgress fleetNames T active (next + 1) k (.made next) r where
  answers := h.answers
  before := fun i m hT =>
    ⟨Nat.lt_succ_of_lt (h.before i m hT).1, .inl (h.lt (by simp) hT)⟩
  started := nofun
  own := by
    rintro _ ⟨⟩
    exact ⟨Nat.lt_succ_self next, fun i hT => absurd (h.before i next hT).1 (Nat.lt_irrefl next)⟩
  new := by
    rintro - fleetName' hname'
    cases hname.symm.trans hname'
    exact Dict.get?_eq_none.mp hnone

/-- Its process is spawned. -/
theorem StartProgress.spawn (h : StartProgress fleetNames T active next k (.made m) r) :
    StartProgress fleetNames T active next k (.spawned m) r where
  answers := h.answers
  before := fun i m' hT => ⟨(h.before i m' hT).1, .inl (h.lt (by simp) hT)⟩
  started := nofun
  own := h.own
  new := fun _ => h.new (by simp)

/-- `start` succeeds. -/
theorem StartProgress.succeed (h : StartProgress fleetNames T active next k (.spawned m) r)
    {T' : ℕ → ManagerId → Prop} (hT' : ∀ i m', T' i m' ↔ T i m' ∨ i = k ∧ m' = m) :
    StartProgress fleetNames T' active next k (.started m) r where
  answers := by
    refine ⟨h.answers.success, h.answers.messages, fun i hi => ?_⟩
    rw [h.answers.entry i hi]
    simp only [StartedAndStored, hT', Nat.ne_of_lt hi, false_and, or_false]
  before := by
    intro i m' hT
    rcases (hT' i m').mp hT with hT | ⟨rfl, rfl⟩
    · exact ⟨(h.before i m' hT).1, .inl (h.lt (by simp) hT)⟩
    · exact ⟨(h.own m' rfl).1, .inr ⟨rfl, rfl⟩⟩
  started := by
    rintro _ ⟨⟩
    exact (hT' k m).mpr (.inr ⟨rfl, rfl⟩)
  own := by
    rintro _ ⟨⟩
    refine ⟨(h.own m rfl).1, fun i hT => ?_⟩
    rcases (hT' i m).mp hT with hT | ⟨rfl, -⟩
    · exact (h.own m rfl).2 i hT
    · rfl
  new := fun _ => h.new (by simp)

/-- The manager is stored, and the entry answered with success. -/
theorem StartProgress.store (h : StartProgress fleetNames T active next k (.started m) r)
    {fleetName : String} (hname : fleetNames[k]? = some fleetName) (message : String) :
    StartProgress fleetNames T (active.put fleetName m) next (k + 1) .next
      (r.append true message) where
  answers := by
    refine h.answers.append (fun i hi => ?_) (iff_of_true rfl ?_) message
    · refine exists_congr fun fleetName' => exists_congr fun m' => ?_
      refine and_congr_right fun _ => and_congr_right fun hT => ?_
      rw [Dict.mem_put]
      constructor
      · rintro (⟨hmem, -⟩ | he)
        · exact hmem
        · cases he
          -- this manager was started for entry `k`
          exact absurd ((h.own m rfl).2 i hT) (Nat.ne_of_lt hi)
      · intro hmem
        exact .inl ⟨hmem, h.new (by simp) fleetName hname _ hmem⟩
    · exact ⟨fleetName, m, hname, h.started m rfl, Dict.mem_put.mpr (.inr rfl)⟩
  before := by
    intro i m' hT
    obtain ⟨hold, hi⟩ := h.before i m' hT
    refine ⟨hold, .inl ?_⟩
    rcases hi with hi | ⟨rfl, -⟩
    · exact Nat.lt_succ_of_lt hi
    · exact Nat.lt_succ_self i
  started := nofun
  own := nofun
  new := fun hnext => absurd rfl hnext

end

/-! ### Stops that can be relied on -/

/-- What holds of the process that is being stopped. -/
def StageOk (active : Dict String ManagerId) (managers : ManagerId → FleetAdapterProcessManager) :
    Control → Prop
  | .stopping _ names stage _ => StoppingOk active managers names stage
  | .cleaning _ adapters stage => CleaningOk managers adapters stage
  | .spinning | .starting _ _ _ _ | .ticking _ | .exited => True

/-- No manager loses hold of a process that runs. -/
structure Sound (s : FleetSpawner) : Prop where
  held : ∀ i, Held (s.managers i)
  stage : StageOk s.activeAdapters s.managers s.control

section

variable {s s' : FleetSpawner} {o : Outcome}

theorem held_update {managers : ManagerId → FleetAdapterProcessManager} {i : ManagerId}
    {m : FleetAdapterProcessManager} (h : ∀ j, Held (managers j)) (hm : Held m) (j : ManagerId) :
    Held (Function.update managers i m j) := by
  by_cases e : j = i
  · subst e
    rwa [Function.update_self]
  · rw [Function.update_of_ne e]
    exact h j

theorem Sound.start (h : ∀ i, Held (s.managers i)) {requested : ℕ} {response : Response}
    {entries : List String} {stage : StartStage} :
    Sound (s.start o requested response entries stage) := by
  have hmade (fleetName : String) (i : ManagerId) :
      Held (Function.update s.managers s.nextManager { fleetName, configFile := true } i) :=
    held_update h (fun hr => by cases hr) i
  cases entries with
  | nil => exact ⟨h, trivial⟩
  | cons fleetName entries =>
      cases stage with
      | next =>
          simp only [FleetSpawner.start]
          split
          · exact ⟨h, trivial⟩
          · exact ⟨hmade fleetName, trivial⟩
          · exact ⟨h, trivial⟩
          · exact ⟨hmade fleetName, trivial⟩
      | made i =>
          simp only [FleetSpawner.start]
          split
          · exact ⟨held_update h fun _ => rfl, trivial⟩
          · exact ⟨h, trivial⟩
      | spawned i =>
          simp only [FleetSpawner.start]
          split <;> exact ⟨h, trivial⟩
      | started i => exact ⟨h, trivial⟩

theorem Sound.stop (h : ∀ i, Held (s.managers i)) {requested : ℕ} {response : Response}
    {names : List String} {stage : Option (ManagerId × StopStage)}
    (hc : StoppingOk s.activeAdapters s.managers names stage) :
    Sound (s.stop o requested response names stage) := by
  cases names with
  | nil => exact ⟨h, trivial⟩
  | cons fleetName names =>
      cases stage with
      | none =>
          simp only [FleetSpawner.stop]
          split
          · exact ⟨h, stoppingOk_none names⟩
          · rename_i i hi
            exact ⟨h, Dict.mem_of_get? hi, trivial⟩
      | some p =>
          obtain ⟨i, stage⟩ := p
          obtain ⟨hmem, hstop⟩ := hc
          obtain ⟨-, hheld, hres⟩ := stop_spec o (h i) hstop
          simp only [FleetSpawner.stop]
          generalize FleetAdapterProcessManager.stop o stage (s.managers i) = r at hheld hres
          obtain ⟨m, res⟩ := r
          have h' : ∀ j, Held (Function.update s.managers i m j) := held_update h hheld
          rcases res with stage' | _ | _
          · have hres' : StopOk (Function.update s.managers i m i) stage' := by
              rw [Function.update_self]
              exact hres
            exact ⟨h', hmem, hres'⟩
          · exact ⟨h', stoppingOk_none names⟩
          · exact ⟨h', stoppingOk_none names⟩

theorem Sound.tick (h : ∀ i, Held (s.managers i)) {dead : List String} : Sound (s.tick o dead) := by
  cases dead with
  | nil => exact ⟨h, trivial⟩
  | cons fleetName dead =>
      simp only [FleetSpawner.tick]
      split <;> exact ⟨h, trivial⟩

theorem Sound.clean (h : ∀ i, Held (s.managers i)) (final : Bool) : Sound (s.clean final) :=
  ⟨h, cleaningOk_none _⟩

theorem Sound.cleanup (h : ∀ i, Held (s.managers i)) {final : Bool}
    {adapters : List (String × ManagerId)} {stage : Option StopStage}
    (hc : CleaningOk s.managers adapters stage) : Sound (s.cleanup o final adapters stage) := by
  cases adapters with
  | nil =>
      simp only [FleetSpawner.cleanup]
      split
      · exact ⟨h, trivial⟩
      · exact Sound.clean h true
  | cons e adapters =>
      cases stage with
      | none => exact ⟨h, trivial⟩
      | some stage =>
          obtain ⟨fleetName, i⟩ := e
          obtain ⟨-, hheld, hres⟩ := stop_spec o (h i) hc
          simp only [FleetSpawner.cleanup]
          generalize FleetAdapterProcessManager.stop o stage (s.managers i) = r at hheld hres
          obtain ⟨m, res⟩ := r
          have h' : ∀ j, Held (Function.update s.managers i m j) := held_update h hheld
          rcases res with stage' | returned
          · have hres' : StopOk (Function.update s.managers i m i) stage' := by
              rw [Function.update_self]
              exact hres
            exact ⟨h', hres'⟩
          · exact ⟨h', cleaningOk_none _⟩

/-- A process dies. -/
theorem Sound.die (h : Sound s) (i : ManagerId) : Sound (s.modify i (s.managers i).die) := by
  have hheld : Held (s.managers i).die := fun hr => h.held i ((fades_die _).running hr)
  refine ⟨held_update h.held hheld, ?_⟩
  have hc := h.stage
  change StageOk _ _ s.control
  cases hcontrol : s.control with
  | spinning | starting | ticking | exited => trivial
  | stopping requested names stage response =>
      rw [hcontrol] at hc
      exact StoppingOk.update (fades_die _) hc
  | cleaning final adapters stage =>
      rw [hcontrol] at hc
      exact CleaningOk.update (fades_die _) hc

theorem Sound.step (h : Sound s) {a : SpawnerAction} (hstep : s.step a = some s') : Sound s' := by
  have hc := h.stage
  cases FleetSpawner.step_moves hstep with
  | startRequest | publishStatus => exact ⟨h.held, trivial⟩
  | stopRequest fleetNames => exact ⟨h.held, stoppingOk_none fleetNames⟩
  | start => exact Sound.start h.held
  | stop o busy =>
      rw [busy] at hc
      exact Sound.stop h.held hc
  | tick => exact Sound.tick h.held
  | cleanup o busy =>
      rw [busy] at hc
      exact Sound.cleanup h.held hc
  | die i => exact h.die i
  | signal | spinReturns => exact Sound.clean h.held _

theorem Sound.reach {P : FleetSpawner → SpawnerAction → Prop} (h : fleetSpawner.Reach P s) :
    Sound s := by
  refine h.invariant ⟨?_, trivial⟩ fun s a s' _ hstep hs => hs.step hstep
  intro i hi
  cases hi

end

/-! ### Steps of a callback -/

section

variable {s s' : FleetSpawner}

/-- `cleanup` has begun, after which no callback returns. -/
def Control.closing : Control → Bool
  | .cleaning _ _ _ | .exited => true
  | .spinning | .starting _ _ _ _ | .stopping _ _ _ _ | .ticking _ => false

theorem closing_cleanup (o : Outcome) (final : Bool) (adapters : List (String × ManagerId))
    (stage : Option StopStage) : (s.cleanup o final adapters stage).control.closing = true := by
  cases adapters with
  | nil =>
      simp only [FleetSpawner.cleanup]
      split <;> rfl
  | cons e adapters =>
      cases stage with
      | none => rfl
      | some stage =>
          simp only [FleetSpawner.cleanup]
          split <;> rfl

/-- What may happen while the main thread is not spinning: it takes a step, a process dies, or
`cleanup` begins. -/
theorem step_cases {a : SpawnerAction} (h : s.step a = some s') (hc : s.control ≠ .spinning) :
    (∃ o, a = .advance o ∧ s.advance o = some s') ∨
      (∃ i, a = .die i ∧ s' = s.modify i (s.managers i).die) ∨
      s'.control.closing = true := by
  cases FleetSpawner.step_moves h with
  | startRequest _ idle | stopRequest _ idle | publishStatus idle | spinReturns idle =>
      exact absurd idle hc
  | start o | stop o | tick o | cleanup o => exact .inl ⟨o, rfl, h⟩
  | die i => exact .inr (.inl ⟨i, rfl, rfl⟩)
  | signal => exact .inr (.inr rfl)

/-- Once it has begun, `cleanup` goes on. -/
theorem closing_step {a : SpawnerAction} (h : s.step a = some s')
    (hc : s.control.closing = true) : s'.control.closing = true := by
  cases FleetSpawner.step_moves h with
  | startRequest _ idle | stopRequest _ idle | publishStatus idle => rw [idle] at hc; cases hc
  | start _ busy | stop _ busy | tick _ busy => rw [busy] at hc; cases hc
  | cleanup o => exact closing_cleanup o _ _ _
  | die => exact hc
  | signal | spinReturns => rfl

end

/-- The entries that are left, of which the first is number `k`. -/
theorem of_drop_eq_cons {fleetNames entries : List String} {fleetName : String} {k : ℕ}
    (h : fleetNames.drop k = fleetName :: entries) :
    k < fleetNames.length ∧ fleetNames[k]? = some fleetName ∧
      entries = fleetNames.drop (k + 1) := by
  have hhead : fleetNames[k]? = some fleetName := by rw [← List.head?_drop, h]; rfl
  refine ⟨(List.getElem?_eq_some_iff.mp hhead).1, hhead, ?_⟩
  rw [← List.tail_drop, h, List.tail_cons]

theorem eq_of_drop_eq {fleetNames : List String} {i k : ℕ} (hi : i < fleetNames.length)
    (h : fleetNames.drop i = fleetNames.drop k) : i = k := by
  have hlength := congrArg List.length h
  rw [List.length_drop, List.length_drop] at hlength
  omega

/-! ### Start requests -/

/-- The callback of a start request is at entry `k`, through the actions `as` from `s₁`:
`responses` is what had been returned before. -/
structure StartServing (fleetNames : List String) (s₁ : FleetSpawner) (responses : List Response)
    (as : List SpawnerAction) (s : FleetSpawner) (k : ℕ) (stage : StartStage) (r : Response) :
    Prop where
  control : s.control = .starting fleetNames.length (fleetNames.drop k) stage r
  le : k ≤ fleetNames.length
  responses : s.responses = responses
  raises : ¬ fleetSpawner.Takes RaisesLater s₁ as
  progress : StartProgress fleetNames
    (fun i m => fleetSpawner.Takes (StartsEntry fleetNames i m) s₁ as) s.activeAdapters
    s.nextManager k stage r

/-- How far the callback has come. -/
inductive StartServed (fleetNames : List String) (s₁ : FleetSpawner) (responses : List Response)
    (as : List SpawnerAction) (s : FleetSpawner) : Prop where
  | serving {k : ℕ} {stage : StartStage} {r : Response}
      (h : StartServing fleetNames s₁ responses as s k stage r)
  | returned {r : Response} (hcontrol : s.control = .spinning)
      (hresponses : s.responses = r :: responses)
      (hanswers : r.Answers fleetNames.length
        ((Request.start fleetNames).Done s₁ as s.activeAdapters) ↔
          ¬ fleetSpawner.Takes RaisesLater s₁ as)
  | aborted (hcontrol : s.control.closing = true)

section

variable {fleetNames : List String} {s₁ s s' : FleetSpawner} {responses : List Response}
  {as : List SpawnerAction} {a : SpawnerAction} {o : Outcome}
  {P : FleetSpawner → SpawnerAction → Prop}

/-- In the step, no manager's `start` succeeds for an entry but where one had. -/
theorem starts_snoc (hrun : fleetSpawner.Run P s₁ as s) (hstep : fleetSpawner.step s a = some s')
    (hquiet : ∀ i m, StartsEntry fleetNames i m s a s' →
      fleetSpawner.Takes (StartsEntry fleetNames i m) s₁ as) :
    (fun i m => fleetSpawner.Takes (StartsEntry fleetNames i m) s₁ (as ++ [a])) =
      fun i m => fleetSpawner.Takes (StartsEntry fleetNames i m) s₁ as := by
  funext i m
  rw [hrun.takes_snoc hstep]
  exact propext (or_iff_left_of_imp (hquiet i m))

/-- No step raises later, and the step taken does not. -/
theorem not_raises_snoc (hrun : fleetSpawner.Run P s₁ as s)
    (hstep : fleetSpawner.step s a = some s') (hraises : ¬ fleetSpawner.Takes RaisesLater s₁ as)
    (ha : ¬ RaisesLater s a s') : ¬ fleetSpawner.Takes RaisesLater s₁ (as ++ [a]) := by
  rw [hrun.takes_snoc hstep]
  exact not_or.mpr ⟨hraises, ha⟩

variable {k : ℕ} {stage : StartStage} {r : Response}

/-- A process dies. -/
theorem StartServing.die (h : StartServing fleetNames s₁ responses as s k stage r)
    (hrun : fleetSpawner.Run P s₁ as s) (i : ManagerId) :
    StartServing fleetNames s₁ responses (as ++ [.die i]) (s.modify i (s.managers i).die) k stage
      r where
  control := h.control
  le := h.le
  responses := h.responses
  raises := by
    refine not_raises_snoc (a := .die i) hrun rfl h.raises ?_
    rintro ⟨o, _, _, _, _, he, -⟩
    cases he
  progress := by
    rw [starts_snoc hrun rfl]
    · exact h.progress
    · -- a manager that has been started was so before the process died
      rintro j m ⟨hj, requested, response, hc⟩
      obtain ⟨-, hdrop, rfl, -⟩ := Control.starting.inj (h.control.symm.trans hc)
      rw [eq_of_drop_eq hj hdrop.symm]
      exact h.progress.started m rfl

/-- The callback goes on, and no manager's `start` has succeeded in the step. -/
theorem StartServing.goOn (h : StartServing fleetNames s₁ responses as s k stage r)
    (hrun : fleetSpawner.Run P s₁ as s) (hstep : fleetSpawner.step s (.advance o) = some s')
    {k' : ℕ} {stage' : StartStage} {r' : Response}
    (hcontrol : s'.control = .starting fleetNames.length (fleetNames.drop k') stage' r')
    (hk : k' ≤ fleetNames.length) (hstage : ∀ m, stage' ≠ .started m)
    (hresponses : s'.responses = s.responses)
    (hraises : ¬ RaisesLater s (.advance o) s')
    (hprogress : StartProgress fleetNames
      (fun i m => fleetSpawner.Takes (StartsEntry fleetNames i m) s₁ as) s'.activeAdapters
      s'.nextManager k' stage' r') :
    StartServed fleetNames s₁ responses (as ++ [.advance o]) s' := by
  refine .serving ⟨hcontrol, hk, hresponses.trans h.responses,
    not_raises_snoc hrun hstep h.raises hraises, ?_⟩
  rw [starts_snoc hrun hstep]
  · exact hprogress
  · rintro i m ⟨-, requested, response, hc⟩
    obtain ⟨-, -, he, -⟩ := Control.starting.inj (hcontrol.symm.trans hc)
    exact absurd he (hstage m)

/-- The callback returns. -/
theorem StartServing.return (h : StartServing fleetNames s₁ responses as s k stage r)
    (hrun : fleetSpawner.Run P s₁ as s) (hstep : fleetSpawner.step s (.advance o) = some s')
    {r' : Response} (hcontrol : s'.control = .spinning)
    (hresponses : s'.responses = r' :: s.responses)
    (hanswers : r'.Answers fleetNames.length (StartedAndStored fleetNames
      (fun i m => fleetSpawner.Takes (StartsEntry fleetNames i m) s₁ as) s'.activeAdapters) ↔
        ¬ RaisesLater s (.advance o) s') :
    StartServed fleetNames s₁ responses (as ++ [.advance o]) s' := by
  refine .returned hcontrol (h.responses ▸ hresponses) ?_
  rw [Request.Done, starts_snoc hrun hstep, hrun.takes_snoc hstep]
  · rw [hanswers]
    exact not_congr (or_iff_right h.raises).symm
  · rintro i m ⟨-, requested, response, hc⟩
    cases hcontrol.symm.trans hc

/-- Only where the callback is about to make a manager does a step raise. -/
theorem not_raisesLater (hcontrol : ∀ requested fleetName entries r,
    s.control ≠ .starting requested (fleetName :: entries) .next r) : ¬ RaisesLater s a s' := by
  rintro ⟨_, requested, fleetName, entries, r, -, -, hc, -⟩
  exact hcontrol requested fleetName entries r hc

/-- An exception is answered as it should be just if no entry has been answered before. -/
theorem StartServing.answers_except (h : StartServing fleetNames s₁ responses as s k .next r)
    {fleetName : String} {entries : List String}
    (hentries : fleetNames.drop k = fleetName :: entries)
    (hnone : s.activeAdapters.get? fleetName = none) (ho : o ≠ .ok) (message : String) :
    (r.except fleetNames.length message).Answers fleetNames.length (StartedAndStored fleetNames
      (fun i m => fleetSpawner.Takes (StartsEntry fleetNames i m) s₁ as) s.activeAdapters) ↔
        ¬ RaisesLater s (.advance o) s' := by
  obtain ⟨hk, -, -⟩ := of_drop_eq_cons hentries
  have hlength := congrArg List.length hentries
  rw [List.length_drop] at hlength
  have hanswers := h.progress.answers
  have hcontrol := h.control
  by_cases hzero : k = 0
  · -- nothing has been answered yet: the handler answers every entry
    subst hzero
    refine iff_of_true (hanswers.except ?_ message) ?_
    · rintro i - ⟨_, m, -, hT, -⟩
      exact absurd (h.progress.lt (by simp) hT) (Nat.not_lt_zero i)
    · rintro ⟨_, requested, _, _, _, -, -, hc, -, hlt⟩
      obtain ⟨rfl, hdrop, -⟩ := Control.starting.inj (hcontrol.symm.trans hc)
      rw [← hdrop, List.drop_zero] at hlt
      exact absurd hlt (Nat.lt_irrefl _)
  · -- the handler leaves the arrays as they are, too short
    refine iff_of_false (hanswers.not_except (Nat.pos_of_ne_zero hzero) hk message) ?_
    rw [hentries] at hcontrol
    refine not_not.mpr ⟨o, _, fleetName, entries, r, rfl, ho, hcontrol, hnone, ?_⟩
    omega

/-- The last step of the callback. -/
theorem StartServing.finish (h : StartServing fleetNames s₁ responses as s k stage r)
    (hrun : fleetSpawner.Run P s₁ as s) (hentries : fleetNames.drop k = [])
    (hstep : s.advance o = some s') :
    StartServed fleetNames s₁ responses (as ++ [.advance o]) s' := by
  have hstep' : fleetSpawner.step s (.advance o) = some s' := hstep
  simp only [FleetSpawner.advance, h.control, hentries, Option.some.injEq] at hstep
  subst hstep
  refine h.return hrun hstep' rfl rfl (iff_of_true ?_ (not_raisesLater ?_))
  · obtain rfl : k = fleetNames.length := Nat.le_antisymm h.le (List.drop_eq_nil_iff.mp hentries)
    exact h.progress.answers
  · intro _ _ _ _ hc
    obtain ⟨-, hdrop, -⟩ := Control.starting.inj (h.control.symm.trans hc)
    cases hentries.symm.trans hdrop

/-- The next step of the callback, before an entry. -/
theorem StartServing.next (h : StartServing fleetNames s₁ responses as s k .next r)
    (hrun : fleetSpawner.Run P s₁ as s) {fleetName : String} {entries : List String}
    (hentries : fleetNames.drop k = fleetName :: entries) (hstep : s.advance o = some s') :
    StartServed fleetNames s₁ responses (as ++ [.advance o]) s' := by
  have hstep' : fleetSpawner.step s (.advance o) = some s' := hstep
  obtain ⟨hk, hname, hrest⟩ := of_drop_eq_cons hentries
  have hraises (h₀ : s.activeAdapters.get? fleetName ≠ none ∨ o = .ok) :
      ¬ RaisesLater s (.advance o) s' := by
    rintro ⟨_, _, _, _, _, ⟨⟩, ho, hc, hnone, -⟩
    obtain ⟨-, hdrop, -⟩ := Control.starting.inj (h.control.symm.trans hc)
    cases hentries.symm.trans hdrop
    exact h₀.elim (fun h => h hnone) ho
  simp only [FleetSpawner.advance, h.control, Option.some.injEq, hentries] at hstep
  simp only [FleetSpawner.start] at hstep
  split at hstep
  · rename_i i hi
    subst hstep
    refine h.goOn hrun hstep' (by rw [hrest]) hk (by simp) rfl (hraises (.inl (by simp [hi]))) ?_
    exact h.progress.refuse (by simp) _
  · rename_i hnone
    subst hstep
    refine h.goOn hrun hstep' (by rw [hentries]) h.le (by simp) rfl (hraises (.inr rfl)) ?_
    exact h.progress.construct hname hnone
  · rename_i hnone
    subst hstep
    exact h.return hrun hstep' rfl rfl (h.answers_except hentries hnone (by simp) _)
  · rename_i hnone
    subst hstep
    exact h.return hrun hstep' rfl rfl (h.answers_except hentries hnone (by simp) _)

/-- The next step of the callback, inside an entry. -/
theorem StartServing.within (h : StartServing fleetNames s₁ responses as s k stage r)
    (hrun : fleetSpawner.Run P s₁ as s) (hstage : stage ≠ .next) {fleetName : String}
    {entries : List String} (hentries : fleetNames.drop k = fleetName :: entries)
    (hstep : s.advance o = some s') :
    StartServed fleetNames s₁ responses (as ++ [.advance o]) s' := by
  have hstep' : fleetSpawner.step s (.advance o) = some s' := hstep
  obtain ⟨hk, hname, hrest⟩ := of_drop_eq_cons hentries
  have hraises : ¬ RaisesLater s (.advance o) s' := by
    refine not_raisesLater fun _ _ _ _ hc => hstage ?_
    exact (Control.starting.inj (h.control.symm.trans hc)).2.2.1
  have hrefuse (hstage : ∀ m, stage ≠ .started m)
      (he : s' = s.failed fleetName entries fleetNames.length r) :
      StartServed fleetNames s₁ responses (as ++ [.advance o]) s' := by
    subst he
    refine h.goOn hrun hstep' (by rw [← hrest]; rfl) hk (by simp) rfl hraises ?_
    exact h.progress.refuse hstage _
  simp only [FleetSpawner.advance, h.control, Option.some.injEq, hentries] at hstep
  cases stage with
  | next => exact absurd rfl hstage
  | made i =>
      simp only [FleetSpawner.start] at hstep
      split at hstep
      · subst hstep
        exact h.goOn hrun hstep' (by rw [hentries]) h.le (by simp) rfl hraises h.progress.spawn
      · exact hrefuse (by simp) hstep.symm
  | spawned i =>
      simp only [FleetSpawner.start] at hstep
      split at hstep
      · subst hstep
        refine .serving ⟨by rw [hentries], h.le, h.responses,
          not_raises_snoc hrun hstep' h.raises hraises, h.progress.succeed fun j m => ?_⟩
        rw [hrun.takes_snoc hstep']
        refine or_congr_right ⟨?_, ?_⟩
        · rintro ⟨hj, _, _, hc⟩
          obtain ⟨-, hdrop, he, -⟩ := Control.starting.inj hc
          rw [← hentries] at hdrop
          cases he
          exact ⟨eq_of_drop_eq hj hdrop.symm, rfl⟩
        · rintro ⟨rfl, rfl⟩
          exact ⟨hk, _, _, by rw [hentries]⟩
      · exact hrefuse (by simp) hstep.symm
  | started i =>
      simp only [FleetSpawner.start] at hstep
      subst hstep
      refine h.goOn hrun hstep' (by rw [hrest]) hk (by simp) rfl hraises ?_
      exact h.progress.store hname _

/-- A step while the callback has not returned. -/
theorem StartServed.step (h : StartServed fleetNames s₁ responses as s)
    (hrun : fleetSpawner.Run P s₁ as s) (hspin : s.control ≠ .spinning)
    (hstep : s.step a = some s') : StartServed fleetNames s₁ responses (as ++ [a]) s' := by
  cases h with
  | returned hcontrol => exact absurd hcontrol hspin
  | aborted hcontrol => exact .aborted (closing_step hstep hcontrol)
  | @serving k stage r h =>
      rcases step_cases hstep hspin with ⟨o, rfl, hstep⟩ | ⟨i, rfl, rfl⟩ | hclosing
      · cases hentries : fleetNames.drop k with
        | nil => exact h.finish hrun hentries hstep
        | cons fleetName entries =>
            by_cases hstage : stage = .next
            · subst hstage
              exact h.next hrun hentries hstep
            · exact h.within hrun hstage hentries hstep
      · exact .serving (h.die hrun i)
      · exact .aborted hclosing

theorem StartServed.run {t : FleetSpawner} (hinit : StartServed fleetNames s₁ responses [] s₁)
    (hrun : fleetSpawner.Run (fun s _ => s.control ≠ .spinning) s₁ as t) :
    StartServed fleetNames s₁ responses as t :=
  hrun.trace hinit fun _ _ _ _ hrun hspin hstep h => h.step hrun hspin hstep

end

/-! ### Stop requests -/

/-- The callback of a stop request is at entry `k`, as in `StartServing`. -/
structure StopServing (fleetNames : List String) (s₁ : FleetSpawner) (responses : List Response)
    (as : List SpawnerAction) (s : FleetSpawner) (k : ℕ) (stage : Option (ManagerId × StopStage))
    (r : Response) : Prop where
  control : s.control = .stopping fleetNames.length (fleetNames.drop k) stage r
  le : k ≤ fleetNames.length
  responses : s.responses = responses
  raises : ¬ fleetSpawner.Takes RaisesLater s₁ as
  answers : r.Answers k fun i => fleetSpawner.Takes (StopsEntry fleetNames i) s₁ as
  before : ∀ i, fleetSpawner.Takes (StopsEntry fleetNames i) s₁ as → i < k

/-- How far the callback has come. -/
inductive StopServed (fleetNames : List String) (s₁ : FleetSpawner) (responses : List Response)
    (as : List SpawnerAction) (s : FleetSpawner) : Prop where
  | serving {k : ℕ} {stage : Option (ManagerId × StopStage)} {r : Response}
      (h : StopServing fleetNames s₁ responses as s k stage r)
  | returned {r : Response} (hcontrol : s.control = .spinning)
      (hresponses : s.responses = r :: responses)
      (hraises : ¬ fleetSpawner.Takes RaisesLater s₁ as)
      (hanswers : r.Answers fleetNames.length
        ((Request.stop fleetNames).Done s₁ as s.activeAdapters))
  | aborted (hcontrol : s.control.closing = true)

section

variable {fleetNames : List String} {s₁ s s' : FleetSpawner} {responses : List Response}
  {as : List SpawnerAction} {a : SpawnerAction} {o : Outcome}
  {P : FleetSpawner → SpawnerAction → Prop} {k : ℕ} {stage : Option (ManagerId × StopStage)}
  {r : Response}

/-- A step that leaves the managers where they are stored stops none. -/
theorem stops_snoc (hrun : fleetSpawner.Run P s₁ as s) (hstep : fleetSpawner.step s a = some s')
    (hactive : s'.activeAdapters = s.activeAdapters) :
    (fun i => fleetSpawner.Takes (StopsEntry fleetNames i) s₁ (as ++ [a])) =
      fun i => fleetSpawner.Takes (StopsEntry fleetNames i) s₁ as := by
  funext i
  rw [hrun.takes_snoc hstep]
  refine propext (or_iff_left ?_)
  rintro ⟨_, m, _, _, _, -, -, hmem, hgone, -⟩
  exact hgone (hactive ▸ hmem)

theorem StopServing.not_raises (h : StopServing fleetNames s₁ responses as s k stage r)
    (hrun : fleetSpawner.Run P s₁ as s) (hstep : fleetSpawner.step s a = some s') :
    ¬ fleetSpawner.Takes RaisesLater s₁ (as ++ [a]) := by
  refine not_raises_snoc hrun hstep h.raises (not_raisesLater fun _ _ _ _ hc => ?_)
  cases h.control.symm.trans hc

/-- A step that leaves the managers where they are stored, and answers no entry, or the next one
with a failure. -/
theorem StopServing.goOn (h : StopServing fleetNames s₁ responses as s k stage r)
    (hrun : fleetSpawner.Run P s₁ as s) (hstep : fleetSpawner.step s a = some s')
    (hactive : s'.activeAdapters = s.activeAdapters) (hresponses : s'.responses = s.responses)
    {stage' : Option (ManagerId × StopStage)}
    (hcontrol : s'.control = .stopping fleetNames.length (fleetNames.drop k) stage' r ∨
      k < fleetNames.length ∧ ∃ message, s'.control =
        .stopping fleetNames.length (fleetNames.drop (k + 1)) stage' (r.append false message)) :
    StopServed fleetNames s₁ responses (as ++ [a]) s' := by
  have hresponses' := hresponses.trans h.responses
  have hraises := h.not_raises hrun hstep
  have hT : ∀ i, fleetSpawner.Takes (StopsEntry fleetNames i) s₁ (as ++ [a]) ↔
      fleetSpawner.Takes (StopsEntry fleetNames i) s₁ as :=
    fun i => iff_of_eq (congrFun (stops_snoc hrun hstep hactive) i)
  rcases hcontrol with hcontrol | ⟨hk, message, hcontrol⟩
  · refine .serving ⟨hcontrol, h.le, hresponses', hraises, ?_, fun i hi => ?_⟩
    · simp only [hT]
      exact h.answers
    · exact h.before i ((hT i).mp hi)
  · refine .serving ⟨hcontrol, hk, hresponses', hraises, ?_, fun i hi => ?_⟩
    · simp only [hT]
      refine h.answers.append (fun _ _ => Iff.rfl) (iff_of_false Bool.false_ne_true ?_) message
      exact fun hi => absurd (h.before k hi) (Nat.lt_irrefl k)
    · exact Nat.lt_succ_of_lt (h.before i ((hT i).mp hi))

/-- The manager has been stopped, and is removed. -/
theorem StopServing.remove (h : StopServing fleetNames s₁ responses as s k stage r)
    (hrun : fleetSpawner.Run P s₁ as s) (hstep : fleetSpawner.step s a = some s')
    {fleetName : String} {i : ManagerId} (hk : k < fleetNames.length)
    (hname : fleetNames[k]? = some fleetName) (hmem : (fleetName, i) ∈ s.activeAdapters.entries)
    (hactive : s'.activeAdapters = s.activeAdapters.erase fleetName)
    (hdead : (s'.managers i).running = false) (hresponses : s'.responses = s.responses)
    {message : String} (hcontrol : s'.control =
      .stopping fleetNames.length (fleetNames.drop (k + 1)) none (r.append true message)) :
    StopServed fleetNames s₁ responses (as ++ [a]) s' := by
  have hT : ∀ j, fleetSpawner.Takes (StopsEntry fleetNames j) s₁ (as ++ [a]) ↔
      fleetSpawner.Takes (StopsEntry fleetNames j) s₁ as ∨ j = k := by
    intro j
    rw [hrun.takes_snoc hstep]
    refine or_congr_right ⟨?_, ?_⟩
    · rintro ⟨_, _, _, _, _, hj, hc, -⟩
      obtain ⟨-, hdrop, -⟩ := Control.stopping.inj (h.control.symm.trans hc)
      exact eq_of_drop_eq (List.getElem?_eq_some_iff.mp hj).1 hdrop.symm
    · rintro rfl
      refine ⟨fleetName, i, _, _, _, hname, h.control, hmem, ?_, hdead⟩
      rw [hactive]
      exact fun hmem => (Dict.mem_erase.mp hmem).2 rfl
  refine .serving ⟨hcontrol, hk, hresponses.trans h.responses, h.not_raises hrun hstep, ?_, ?_⟩
  · refine h.answers.append (fun j hj => ?_) (iff_of_true rfl ((hT k).mpr (.inr rfl))) message
    rw [hT]
    exact or_iff_left (Nat.ne_of_lt hj)
  · intro j hj
    rcases (hT j).mp hj with hj | rfl
    · exact Nat.lt_succ_of_lt (h.before j hj)
    · exact Nat.lt_succ_self j

/-- The next step of the callback. -/
theorem StopServing.advance (h : StopServing fleetNames s₁ responses as s k stage r)
    (hrun : fleetSpawner.Run P s₁ as s) (hsound : Sound s) (hstep : s.advance o = some s') :
    StopServed fleetNames s₁ responses (as ++ [.advance o]) s' := by
  have hstep' : fleetSpawner.step s (.advance o) = some s' := hstep
  have hstopping := hsound.stage
  simp only [h.control, StageOk] at hstopping
  simp only [FleetSpawner.advance, h.control, Option.some.injEq] at hstep
  cases hentries : fleetNames.drop k with
  | nil =>
      rw [hentries] at hstep
      subst hstep
      obtain rfl : k = fleetNames.length := Nat.le_antisymm h.le (List.drop_eq_nil_iff.mp hentries)
      refine .returned rfl (by rw [← h.responses]; rfl) (h.not_raises hrun hstep') ?_
      rw [Request.Done, stops_snoc hrun hstep' rfl]
      exact h.answers
  | cons fleetName names =>
      obtain ⟨hk, hname, hrest⟩ := of_drop_eq_cons hentries
      rw [hentries] at hstep hstopping
      cases stage with
      | none =>
          simp only [FleetSpawner.stop] at hstep
          split at hstep
          · subst hstep
            exact h.goOn hrun hstep' rfl rfl (.inr ⟨hk, _, by rw [hrest]⟩)
          · subst hstep
            exact h.goOn hrun hstep' rfl rfl (.inl (by rw [hentries]))
      | some p =>
          obtain ⟨i, stage⟩ := p
          obtain ⟨hmem, hstop⟩ := hstopping
          obtain ⟨-, -, hres⟩ := stop_spec o (hsound.held i) hstop
          simp only [FleetSpawner.stop] at hstep
          generalize FleetAdapterProcessManager.stop o stage (s.managers i) = result at hstep hres
          obtain ⟨m, stage' | _ | _⟩ := result
          · subst hstep
            exact h.goOn hrun hstep' rfl rfl (.inl (by rw [hentries]))
          · subst hstep
            exact h.goOn hrun hstep' rfl rfl (.inr ⟨hk, _, by rw [hrest]⟩)
          · subst hstep
            refine h.remove hrun hstep' hk hname hmem rfl ?_ rfl (by rw [hrest])
            exact (congrArg running (Function.update_self _ _ _)).trans hres

/-- A step while the callback has not returned. -/
theorem StopServed.step (h : StopServed fleetNames s₁ responses as s)
    (hrun : fleetSpawner.Run P s₁ as s) (hsound : Sound s) (hspin : s.control ≠ .spinning)
    (hstep : s.step a = some s') : StopServed fleetNames s₁ responses (as ++ [a]) s' := by
  cases h with
  | returned hcontrol => exact absurd hcontrol hspin
  | aborted hcontrol => exact .aborted (closing_step hstep hcontrol)
  | @serving k stage r h =>
      rcases step_cases hstep hspin with ⟨o, rfl, hstep⟩ | ⟨i, rfl, rfl⟩ | hclosing
      · exact h.advance hrun hsound hstep
      · exact h.goOn hrun rfl rfl rfl (.inl h.control)
      · exact .aborted hclosing

theorem StopServed.run {t : FleetSpawner} (hinit : StopServed fleetNames s₁ responses [] s₁)
    (hsound : Sound s₁) (hrun : fleetSpawner.Run (fun s _ => s.control ≠ .spinning) s₁ as t) :
    StopServed fleetNames s₁ responses as t := by
  suffices Sound t ∧ StopServed fleetNames s₁ responses as t from this.2
  refine hrun.trace (I := fun as t => Sound t ∧ StopServed fleetNames s₁ responses as t)
    ⟨hsound, hinit⟩ ?_
  rintro as u a u' hrun hspin hstep ⟨hsound, h⟩
  exact ⟨hsound.step hstep, h.step hrun hsound hspin hstep⟩

end

/-! ### Whole callbacks -/

/-- A response returned in state `t`, through the actions `as` from `s₁`, answers the request. -/
def Request.Answered (request : Request) (s₁ : FleetSpawner) (as : List SpawnerAction)
    (t : FleetSpawner) (r : Response) : Prop :=
  r.Answers request.fleetNames.length (request.Done s₁ as t.activeAdapters)

variable {P : FleetSpawner → SpawnerAction → Prop} {s s₁ t : FleetSpawner} {request : Request}
  {as : List SpawnerAction}

/-- **Responses.**  A callback that returns answers its request entry by entry, just if no
constructor has raised at an entry other than the first. -/
theorem response_answers_iff (hs : fleetSpawner.Reach P s)
    (hrequest : fleetSpawner.step s request.action = some s₁)
    (hrun : fleetSpawner.Run (fun s _ => s.control ≠ .spinning) s₁ as t)
    (ht : t.control = .spinning) :
    ∃ r, t.responses = r :: s.responses ∧
      (request.Answered s₁ as t r ↔ ¬ fleetSpawner.Takes RaisesLater s₁ as) := by
  have hsound : Sound s₁ := (Sound.reach hs).step hrequest
  cases request with
  | start fleetNames =>
      have hmoves : s.Moves (.startFleetAdapters fleetNames) s₁ := FleetSpawner.step_moves hrequest
      have hinit : StartServed fleetNames s₁ s.responses [] s₁ := by
        cases hmoves
        refine .serving (k := 0) ⟨rfl, Nat.zero_le _, rfl, Lts.not_takes_nil _, ?_⟩
        exact .start fleetNames fun i m => Lts.not_takes_nil _
      cases hinit.run hrun with
      | serving h => cases ht.symm.trans h.control
      | returned _ hresponses hanswers => exact ⟨_, hresponses, hanswers⟩
      | aborted hclosing => rw [ht] at hclosing; cases hclosing
  | stop fleetNames =>
      have hmoves : s.Moves (.stopFleetAdapters fleetNames) s₁ := FleetSpawner.step_moves hrequest
      have hinit : StopServed fleetNames s₁ s.responses [] s₁ := by
        cases hmoves
        exact .serving (k := 0) ⟨rfl, Nat.zero_le _, rfl, Lts.not_takes_nil _, .nil _,
          fun i hi => absurd hi (Lts.not_takes_nil _)⟩
      cases hinit.run hsound hrun with
      | serving h => cases ht.symm.trans h.control
      | returned _ hresponses hraises hanswers =>
          exact ⟨_, hresponses, iff_of_true hanswers hraises⟩
      | aborted hclosing => rw [ht] at hclosing; cases hclosing

/-- Of three entries the first is started, the second is of the same fleet, and the third's process
cannot be made. -/
def mixedBatch : List SpawnerAction :=
  List.replicate 6 (.advance .ok) ++ [.advance (.raises "no such file"), .advance .ok]

theorem response_answers_iff_mixedBatch : ∃ s₁ t,
    fleetSpawner.step fleetSpawner.init
        (Request.start ["fleet_a", "fleet_a", "fleet_b"]).action = some s₁ ∧
      ∃ r, t.responses = [r] ∧ r.success = [true, false, false] ∧
        ((Request.start ["fleet_a", "fleet_a", "fleet_b"]).Answered s₁ mixedBatch t r ↔
          ¬ fleetSpawner.Takes RaisesLater s₁ mixedBatch) := by
  have hrun : ∃ s₁ t, fleetSpawner.step fleetSpawner.init
      (Request.start ["fleet_a", "fleet_a", "fleet_b"]).action = some s₁ ∧
      fleetSpawner.runs (fun s _ => s.control ≠ .spinning) s₁ mixedBatch = some t ∧
      t.control = .spinning ∧ t.responses.map Response.success = [[true, false, false]] :=
    ⟨_, _, rfl, rfl, rfl, rfl⟩
  obtain ⟨s₁, t, hrequest, hrun, ht, hsuccess⟩ := hrun
  have hinit : fleetSpawner.Reach (fun _ _ => True) fleetSpawner.init := .init
  obtain ⟨r, hr, hiff⟩ := response_answers_iff hinit hrequest (Lts.run_of_runs hrun) ht
  rw [hr] at hsuccess
  exact ⟨s₁, t, hrequest, r, hr, (List.cons.inj hsuccess).1, hiff⟩

/-- One fleet is started, and the constructor raises at the next. -/
def secondRaises : List SpawnerAction :=
  List.replicate 4 (.advance .ok) ++ [.advance (.raises "disk full")]

/-- The constructor raises at the second of two entries, and the response answers one. -/
theorem response_cut_short :
    ¬ ∀ (request : Request) (s₁ t : FleetSpawner) (as : List SpawnerAction),
      fleetSpawner.step fleetSpawner.init request.action = some s₁ →
      fleetSpawner.Run (fun s _ => s.control ≠ .spinning) s₁ as t → t.control = .spinning →
      ∃ r, t.responses = [r] ∧ request.Answered s₁ as t r := by
  intro h
  have hrun : ∃ s₁ t, fleetSpawner.step fleetSpawner.init
      (.startFleetAdapters ["fleet_a", "fleet_b"]) = some s₁ ∧
      fleetSpawner.runs (fun s _ => s.control ≠ .spinning) s₁ secondRaises = some t ∧
        t.control = .spinning ∧
        t.responses = [⟨[true], ["Fleet adapter started for fleet_a"]⟩] :=
    ⟨_, _, rfl, rfl, rfl, rfl⟩
  obtain ⟨s₁, t, hrequest, hrun, ht, hresponses⟩ := hrun
  obtain ⟨r, hr, hanswered⟩ := h (.start ["fleet_a", "fleet_b"]) s₁ t _ hrequest
    (Lts.run_of_runs hrun) ht
  cases hresponses.symm.trans hr
  cases hanswered.success

end EgbFleet.Spawner
