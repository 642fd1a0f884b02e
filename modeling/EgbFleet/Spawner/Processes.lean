import EgbFleet.Spawner.Machine

/-!
# Spawner — no process goes astray

A process that runs, and has not been sent a termination signal, should belong to a manager in
`active_adapters`, under its fleet's name: then `cleanup` finds it.  But `start` spawns the process
two seconds before the callback stores its manager, and drops the manager if anything fails in
between; and `cleanup` drops a manager whose `stop` has failed.

`processes_accounted`: in every run in which nothing fails, and no signal arrives, between spawning
a process that lives on and storing its manager, and in which `cleanup` can signal each process that
is alive, the property holds in just the states in which no such process waits to be stored; and in
all of them no fleet has two processes running, and `cleanup` has left none running that has not
been signalled.
-/

namespace EgbFleet.Spawner

open FleetAdapterProcessManager

/-! ### What is to hold -/

/-- The manager whose process is running and about to be stored. -/
def Control.pending? : Control → Option ManagerId
  | .starting _ _ stage _ => stage.pending?
  | _ => none

/-- Manager `i` is stored under its fleet's name. -/
def Recorded (active : Dict String ManagerId)
    (managers : ManagerId → FleetAdapterProcessManager) (i : ManagerId) : Prop :=
  ((managers i).fleetName, i) ∈ active.entries

namespace FleetSpawner

variable (s : FleetSpawner)

/-- No fleet has two processes running. -/
def Single : Prop :=
  ∀ i j, (s.managers i).running = true → (s.managers j).running = true →
    (s.managers i).fleetName = (s.managers j).fleetName → i = j

/-- Once the spawner has exited, none runs that has not been signalled. -/
def Cleaned : Prop := s.control = .exited → ∀ i, (s.managers i).loose = false

structure Accounted : Prop where
  recorded : ∀ i, (s.managers i).loose = true → Recorded s.activeAdapters s.managers i
  single : s.Single
  cleaned : s.Cleaned

/-- No process that runs, and has not been signalled, waits for its manager to be stored. -/
def Settled : Prop := ∀ i, s.control.pending? = some i → (s.managers i).loose = false

end FleetSpawner

/-- Nothing fails and no signal arrives between spawning a process that is alive and storing its
manager, and `cleanup` fails to signal no process that is alive. -/
def Careful (s : FleetSpawner) : SpawnerAction → Prop
  | .advance o =>
      match s.control with
      | .starting _ _ (.spawned i) _ => o = .ok ∨ (s.managers i).running = false
      | .cleaning _ ((_, i) :: _) (some .kill) => o = .ok ∨ (s.managers i).running = false
      | _ => True
  | .signal => ∀ i, s.control.pending? = some i → (s.managers i).running = false
  | _ => True

/-! ### One manager -/

section

variable {m m' : FleetAdapterProcessManager}

theorem running_of_loose (h : m.loose = true) : m.running = true := by
  simp only [loose, running, Option.any_eq_true] at h ⊢
  obtain ⟨p, hp, h⟩ := h
  exact ⟨p, hp, (Bool.and_eq_true_iff.mp h).1⟩

/-- `m'` is `m`, or less alive. -/
structure Fades (m m' : FleetAdapterProcessManager) : Prop where
  fleetName : m'.fleetName = m.fleetName
  running : m'.running = true → m.running = true
  loose : m'.loose = true → m.loose = true

theorem Fades.refl (m : FleetAdapterProcessManager) : Fades m m := ⟨rfl, id, id⟩

theorem fades_die (m : FleetAdapterProcessManager) : Fades m m.die := by
  obtain ⟨name, file, spawned, process⟩ := m
  refine ⟨rfl, ?_, ?_⟩ <;> cases spawned <;> simp [die, FleetAdapterProcessManager.running,
    FleetAdapterProcessManager.loose]

theorem fades_signal (m : FleetAdapterProcessManager) : Fades m m.signal := by
  obtain ⟨name, file, spawned, process⟩ := m
  refine ⟨rfl, ?_, ?_⟩ <;> cases spawned <;> simp [FleetAdapterProcessManager.signal,
    FleetAdapterProcessManager.running, FleetAdapterProcessManager.loose]

theorem loose_signal (m : FleetAdapterProcessManager) : m.signal.loose = false := by
  obtain ⟨name, file, spawned, process⟩ := m
  cases spawned <;> simp [FleetAdapterProcessManager.signal, FleetAdapterProcessManager.loose]

/-- A process that runs is one `self.process` still refers to. -/
def Held (m : FleetAdapterProcessManager) : Prop := m.running = true → m.process = true

/-- What `stop` has done to the process. -/
def StopOk (m : FleetAdapterProcessManager) : StopStage → Prop
  | .kill => True
  | .wait => m.loose = false
  | .unlink | .finish => m.running = false

theorem Fades.stopOk (h : Fades m m') {stage : StopStage} (hs : StopOk m stage) :
    StopOk m' stage := by
  cases stage with
  | kill => trivial
  | wait => exact Bool.eq_false_iff.mpr fun hl => absurd (h.loose hl) (Bool.eq_false_iff.mp hs)
  | unlink | finish =>
      exact Bool.eq_false_iff.mpr fun hr => absurd (h.running hr) (Bool.eq_false_iff.mp hs)

/-- What `stop` leaves behind, where it goes on and where it returns. -/
def Stopped (o : Outcome) (m : FleetAdapterProcessManager) (stage : StopStage)
    (m' : FleetAdapterProcessManager) : StopStage ⊕ Bool → Prop
  | .inl stage' => StopOk m' stage'
  | .inr true => m'.running = false
  | .inr false => m'.loose = true → stage = .kill ∧ o ≠ .ok ∧ m.running = true

theorem stop_spec (o : Outcome) {stage : StopStage} (hh : Held m) (hs : StopOk m stage) :
    Fades m (stop o stage m).1 ∧ Held (stop o stage m).1 ∧
      Stopped o m stage (stop o stage m).1 (stop o stage m).2 := by
  cases stage with
  | kill =>
      by_cases hp : m.process = true
      · cases o with
        | ok =>
            simp only [stop, hp, if_true]
            exact ⟨fades_signal m, fun _ => hp, loose_signal m⟩
        | raises _ | raisesLate _ =>
            simp only [stop, hp]
            exact ⟨.refl m, hh, fun hl => ⟨rfl, by simp, running_of_loose hl⟩⟩
      · have hdead : m.running = false := Bool.eq_false_iff.mpr fun hr => hp (hh hr)
        cases o <;> simpa [stop, hp, Stopped, hdead] using And.intro (Fades.refl m) hh
  | wait =>
      have hfalse (hl : m.loose = true) : False := by rw [hs] at hl; cases hl
      cases o with
      | ok =>
          refine ⟨.refl m, hh, ?_⟩
          cases hr : m.running with
          | true => simpa [stop, Stopped, hr] using hs
          | false => simp [stop, Stopped, hr, StopOk]
      | raises _ | raisesLate _ => exact ⟨.refl m, hh, fun hl => (hfalse hl).elim⟩
  | unlink =>
      have hfalse (hl : m.loose = true) : False :=
        absurd (running_of_loose hl) (Bool.eq_false_iff.mp hs)
      cases o with
      | ok => exact ⟨⟨rfl, id, id⟩, hh, hs⟩
      | raises _ | raisesLate _ => exact ⟨.refl m, hh, fun hl => (hfalse hl).elim⟩
  | finish =>
      have hfalse (hl : m.loose = true) : False :=
        absurd (running_of_loose hl) (Bool.eq_false_iff.mp hs)
      cases o with
      | ok => exact ⟨⟨rfl, id, id⟩, fun hr => absurd hr (Bool.eq_false_iff.mp hs), hs⟩
      | raises _ | raisesLate _ => exact ⟨.refl m, hh, fun hl => (hfalse hl).elim⟩

end

/-! ### The books -/

/-- What holds wherever the main thread is. -/
structure Books (active : Dict String ManagerId)
    (managers : ManagerId → FleetAdapterProcessManager) (next : ManagerId) : Prop where
  named : ∀ e ∈ active.entries, (managers e.2).fleetName = e.1
  old : ∀ e ∈ active.entries, e.2 < next
  fresh : ∀ i, next ≤ i → (managers i).running = false
  held : ∀ i, Held (managers i)
  single : ∀ i j, (managers i).running = true → (managers j).running = true →
    (managers i).fleetName = (managers j).fleetName → i = j

section

variable {active : Dict String ManagerId} {managers : ManagerId → FleetAdapterProcessManager}
  {next i : ManagerId} {m : FleetAdapterProcessManager}

theorem fades_update (hm : Fades (managers i) m) (j : ManagerId) :
    Fades (managers j) (Function.update managers i m j) := by
  by_cases e : j = i
  · subst e; rw [Function.update_self]; exact hm
  · rw [Function.update_of_ne e]; exact .refl _

/-- A manager's process fades. -/
theorem Books.update (h : Books active managers next) (hm : Fades (managers i) m) (hh : Held m) :
    Books active (Function.update managers i m) next where
  named := fun e he => (fades_update hm _).fleetName.trans (h.named e he)
  old := h.old
  fresh := fun j hj => Bool.eq_false_iff.mpr fun hr =>
    absurd ((fades_update hm j).running hr) (Bool.eq_false_iff.mp (h.fresh j hj))
  held := by
    intro j
    by_cases e : j = i
    · subst e; rw [Function.update_self]; exact hh
    · rw [Function.update_of_ne e]; exact h.held j
  single := by
    intro j k hj hk e
    rw [(fades_update hm j).fleetName, (fades_update hm k).fleetName] at e
    exact h.single j k ((fades_update hm j).running hj) ((fades_update hm k).running hk) e

theorem Books.erase (h : Books active managers next) (fleetName : String) :
    Books (active.erase fleetName) managers next where
  named := fun e he => h.named e (Dict.mem_erase.mp he).1
  old := fun e he => h.old e (Dict.mem_erase.mp he).1
  fresh := h.fresh
  held := h.held
  single := h.single

theorem Books.put (h : Books active managers next) (hi : i < next) :
    Books (active.put (managers i).fleetName i) managers next where
  named := by
    intro e he
    rcases Dict.mem_put.mp he with ⟨he, -⟩ | rfl
    · exact h.named e he
    · rfl
  old := by
    intro e he
    rcases Dict.mem_put.mp he with ⟨he, -⟩ | rfl
    · exact h.old e he
    · exact hi
  fresh := h.fresh
  held := h.held
  single := h.single

theorem Books.construct (h : Books active managers next) (fleetName : String) :
    Books active
      (Function.update managers next { fleetName, configFile := true }) (next + 1) := by
  have hne : ∀ e ∈ active.entries, e.2 ≠ next := fun e he => Nat.ne_of_lt (h.old e he)
  have hrun : ∀ j, (Function.update managers next { fleetName, configFile := true } j).running
      = true → j ≠ next ∧ (managers j).running = true := by
    intro j hj
    by_cases e : j = next
    · subst e; rw [Function.update_self] at hj; cases hj
    · rw [Function.update_of_ne e] at hj; exact ⟨e, hj⟩
  refine ⟨fun e he => ?_, fun e he => Nat.lt_succ_of_lt (h.old e he), ?_, ?_, ?_⟩
  · rw [Function.update_of_ne (hne e he)]; exact h.named e he
  · intro j hj
    have hne : j ≠ next := Nat.ne_of_gt hj
    rw [Function.update_of_ne hne]
    exact h.fresh j (Nat.le_of_succ_le hj)
  · intro j hj
    obtain ⟨e, hr⟩ := hrun j hj
    rw [Function.update_of_ne e]
    exact h.held j hr
  · intro j k hj hk e
    obtain ⟨hj', hjr⟩ := hrun j hj
    obtain ⟨hk', hkr⟩ := hrun k hk
    rw [Function.update_of_ne hj', Function.update_of_ne hk'] at e
    exact h.single j k hjr hkr e

theorem fleetName_spawn (managers : ManagerId → FleetAdapterProcessManager) (i j : ManagerId) :
    (Function.update managers i (managers i).spawn j).fleetName = (managers j).fleetName :=
  apply_update_eq FleetAdapterProcessManager.fleetName (by rfl) j

/-- A process is spawned, of a fleet that has none running. -/
theorem Books.spawn (h : Books active managers next) (hi : i < next)
    (hno : ∀ j, (managers j).running = true → (managers j).fleetName ≠ (managers i).fleetName) :
    Books active (Function.update managers i (managers i).spawn) next := by
  have hname := fleetName_spawn managers i
  have hrun : ∀ j, (Function.update managers i (managers i).spawn j).running = true →
      j = i ∨ j ≠ i ∧ (managers j).running = true := by
    intro j hj
    by_cases e : j = i
    · exact .inl e
    · rw [Function.update_of_ne e] at hj; exact .inr ⟨e, hj⟩
  refine ⟨fun e he => (hname _).trans (h.named e he), h.old, ?_, ?_, ?_⟩
  · intro j hj
    rw [Function.update_of_ne (Nat.ne_of_gt (Nat.lt_of_lt_of_le hi hj))]
    exact h.fresh j hj
  · intro j hj
    by_cases e : j = i
    · subst e; rw [Function.update_self]; rfl
    · rw [Function.update_of_ne e] at hj ⊢; exact h.held j hj
  · intro j k hj hk e
    rw [hname, hname] at e
    rcases hrun j hj with rfl | ⟨-, hjr⟩ <;> rcases hrun k hk with rfl | ⟨-, hkr⟩
    · rfl
    · exact absurd e.symm (hno k hkr)
    · exact absurd e (hno j hjr)
    · exact h.single j k hjr hkr e

end

/-! ### Where the main thread is -/

section

variable (active : Dict String ManagerId) (managers : ManagerId → FleetAdapterProcessManager)
  (next : ManagerId)

/-- Every process that runs is recorded, but for the pending one. -/
def AllRecorded (pending : Option ManagerId) : Prop :=
  ∀ i, (managers i).running = true → Recorded active managers i ∨ pending = some i

def LooseRecorded : Prop := ∀ i, (managers i).loose = true → Recorded active managers i

/-- Manager `i` is being started, for a fleet that has none. -/
structure Entering (fleetName : String) (i : ManagerId) : Prop where
  named : (managers i).fleetName = fleetName
  old : i < next
  new : ∀ e ∈ active.entries, e.1 ≠ fleetName

def StartOk : List String → StartStage → Prop
  | _, .next => True
  | fleetName :: _, .made i | fleetName :: _, .spawned i | fleetName :: _, .started i =>
      Entering active managers next fleetName i
  | [], _ => False

def StoppingOk : List String → Option (ManagerId × StopStage) → Prop
  | [], _ | _ :: _, none => True
  | fleetName :: _, some (i, stage) => (fleetName, i) ∈ active.entries ∧ StopOk (managers i) stage

def CleaningOk : List (String × ManagerId) → Option StopStage → Prop
  | [], _ | _ :: _, none => True
  | (_, i) :: _, some stage => StopOk (managers i) stage

def ControlOk : Control → Prop
  | .spinning => AllRecorded active managers none
  | .starting _ entries stage _ =>
      AllRecorded active managers stage.pending? ∧ StartOk active managers next entries stage
  | .stopping _ names stage _ =>
      AllRecorded active managers none ∧ StoppingOk active managers names stage
  | .ticking dead =>
      AllRecorded active managers none ∧
        ∀ fleetName ∈ dead, ∀ e ∈ active.entries, e.1 = fleetName → (managers e.2).running = false
  | .cleaning _ adapters stage =>
      LooseRecorded active managers ∧ active.entries = adapters ∧ CleaningOk managers adapters stage
  | .exited => LooseRecorded active managers ∧ active.entries = []

end

structure SpawnerOk (s : FleetSpawner) : Prop where
  books : Books s.activeAdapters s.managers s.nextManager
  control : ControlOk s.activeAdapters s.managers s.nextManager s.control

section

variable {active : Dict String ManagerId} {managers : ManagerId → FleetAdapterProcessManager}
  {next i : ManagerId} {m : FleetAdapterProcessManager} {pending : Option ManagerId}

/-! ### What a fading process leaves as it was -/

theorem Recorded.update (hm : Fades (managers i) m) {j : ManagerId}
    (h : Recorded active managers j) : Recorded active (Function.update managers i m) j := by
  unfold Recorded
  rw [(fades_update hm j).fleetName]
  exact h

theorem AllRecorded.update (h : AllRecorded active managers pending) (hm : Fades (managers i) m) :
    AllRecorded active (Function.update managers i m) pending := fun j hj =>
  (h j ((fades_update hm j).running hj)).imp_left (Recorded.update hm)

theorem stoppingOk_none (names : List String) : StoppingOk active managers names none := by
  cases names <;> trivial

theorem cleaningOk_none (adapters : List (String × ManagerId)) :
    CleaningOk managers adapters none := by
  cases adapters <;> trivial

theorem LooseRecorded.update (h : LooseRecorded active managers) (hm : Fades (managers i) m) :
    LooseRecorded active (Function.update managers i m) := fun j hj =>
  Recorded.update hm (h j ((fades_update hm j).loose hj))

theorem Entering.update (hm : Fades (managers i) m) {fleetName : String} {j : ManagerId}
    (h : Entering active managers next fleetName j) :
    Entering active (Function.update managers i m) next fleetName j :=
  ⟨(fades_update hm j).fleetName.trans h.named, h.old, h.new⟩

theorem StoppingOk.update (hm : Fades (managers i) m) {names : List String}
    {stage : Option (ManagerId × StopStage)} (h : StoppingOk active managers names stage) :
    StoppingOk active (Function.update managers i m) names stage := by
  cases names with
  | nil => trivial
  | cons fleetName names =>
      cases stage with
      | none => trivial
      | some p => exact ⟨h.1, (fades_update hm p.1).stopOk h.2⟩

theorem CleaningOk.update (hm : Fades (managers i) m) {adapters : List (String × ManagerId)}
    {stage : Option StopStage} (h : CleaningOk managers adapters stage) :
    CleaningOk (Function.update managers i m) adapters stage := by
  cases adapters with
  | nil => trivial
  | cons e adapters =>
      cases stage with
      | none => trivial
      | some stage => exact (fades_update hm e.2).stopOk h

theorem ControlOk.update {c : Control} (h : ControlOk active managers next c)
    (hm : Fades (managers i) m) : ControlOk active (Function.update managers i m) next c := by
  cases c with
  | spinning => exact AllRecorded.update h hm
  | starting requested entries stage response =>
      refine ⟨h.1.update hm, ?_⟩
      have hs := h.2
      cases entries with
      | nil => cases stage <;> exact hs
      | cons fleetName entries =>
          cases stage with
          | next => trivial
          | made j | spawned j | started j => exact Entering.update hm hs
  | stopping requested names stage response => exact ⟨h.1.update hm, StoppingOk.update hm h.2⟩
  | ticking dead =>
      refine ⟨h.1.update hm, fun n hn e he heq => ?_⟩
      have hdead := h.2 n hn e he heq
      exact Bool.eq_false_iff.mpr fun hr =>
        absurd ((fades_update hm e.2).running hr) (Bool.eq_false_iff.mp hdead)
  | cleaning final adapters stage =>
      exact ⟨LooseRecorded.update h.1 hm, h.2.1, CleaningOk.update hm h.2.2⟩
  | exited => exact ⟨LooseRecorded.update h.1 hm, h.2⟩

/-! ### What the dictionary's changes leave recorded -/

theorem AllRecorded.erase (h : AllRecorded active managers pending) {fleetName : String}
    (hdead : ∀ e ∈ active.entries, e.1 = fleetName → (managers e.2).running = false) :
    AllRecorded (active.erase fleetName) managers pending := by
  intro j hj
  refine (h j hj).imp_left fun hr => Dict.mem_erase.mpr ⟨hr, fun e => ?_⟩
  rw [hdead _ hr e] at hj
  cases hj

theorem LooseRecorded.erase (h : LooseRecorded active managers) {fleetName : String}
    (hdead : ∀ e ∈ active.entries, e.1 = fleetName → (managers e.2).loose = false) :
    LooseRecorded (active.erase fleetName) managers := by
  intro j hj
  refine Dict.mem_erase.mpr ⟨h j hj, fun e => ?_⟩
  rw [hdead _ (h j hj) e] at hj
  cases hj

theorem AllRecorded.put (h : AllRecorded active managers (some i))
    (hnew : ∀ e ∈ active.entries, e.1 ≠ (managers i).fleetName) :
    AllRecorded (active.put (managers i).fleetName i) managers none := by
  intro j hj
  refine .inl (Dict.mem_put.mpr ?_)
  rcases h j hj with hr | e
  · exact .inl ⟨hr, hnew _ hr⟩
  · cases e; exact .inr rfl

theorem AllRecorded.construct (h : AllRecorded active managers none) (fleetName : String) :
    AllRecorded active (Function.update managers next { fleetName, configFile := true }) none := by
  intro j hj
  by_cases e : j = next
  · subst e; rw [Function.update_self] at hj; cases hj
  · unfold Recorded
    rw [Function.update_of_ne e] at hj ⊢
    exact h j hj

theorem AllRecorded.spawn (h : AllRecorded active managers none) :
    AllRecorded active (Function.update managers i (managers i).spawn) (some i) := by
  intro j hj
  by_cases e : j = i
  · exact .inr (congrArg some e.symm)
  · rw [Function.update_of_ne e] at hj
    unfold Recorded
    rw [fleetName_spawn]
    exact .inl ((h j hj).resolve_right nofun)

/-- An entry's manager is the only one under its name. -/
theorem eq_of_named {fleetName : String} (hmem : (fleetName, i) ∈ active.entries)
    {P : ManagerId → Prop} (hi : P i) : ∀ e ∈ active.entries, e.1 = fleetName → P e.2 := by
  intro e he heq
  have := Dict.eq_of_mem he hmem heq
  rw [this]
  exact hi

/-- What is loose when the callbacks are left. -/
theorem ControlOk.looseRecorded {c : Control} (h : ControlOk active managers next c)
    (hp : ∀ i, c.pending? = some i → (managers i).running = false) :
    LooseRecorded active managers := by
  have all {pending : Option ManagerId} (ha : AllRecorded active managers pending)
      (hp : ∀ i, pending = some i → (managers i).running = false) :
      LooseRecorded active managers := fun j hj =>
    (ha j (running_of_loose hj)).resolve_right fun e =>
      absurd (running_of_loose hj) (Bool.eq_false_iff.mp (hp j e))
  cases c with
  | spinning => exact all h nofun
  | starting requested entries stage response => exact all h.1 hp
  | stopping requested names stage response => exact all h.1 nofun
  | ticking dead => exact all h.1 nofun
  | cleaning final adapters stage => exact h.1
  | exited => exact h.1

end

/-! ### Steps -/

section

variable {s : FleetSpawner} {o : Outcome} {requested : Nat} {response : Response}

theorem SpawnerOk.start (hb : Books s.activeAdapters s.managers s.nextManager)
    {entries : List String} {stage : StartStage}
    (hc : ControlOk s.activeAdapters s.managers s.nextManager
      (.starting requested entries stage response))
    (ho : ∀ i, stage = .spawned i → o = .ok ∨ (s.managers i).running = false) :
    SpawnerOk (s.start o requested response entries stage) := by
  obtain ⟨hrec, hs⟩ := hc
  cases entries with
  | nil =>
      cases stage with
      | next => exact ⟨hb, hrec⟩
      | made | spawned | started => exact hs.elim
  | cons fleetName entries =>
      cases stage with
      | next =>
          have hrec' : AllRecorded s.activeAdapters (s.construct fleetName).managers none :=
            AllRecorded.construct hrec fleetName
          simp only [FleetSpawner.start]
          split
          · exact ⟨hb, hrec, trivial⟩
          · rename_i hnone
            exact ⟨hb.construct fleetName, hrec', congrArg _ (Function.update_self _ _ _),
              Nat.lt_succ_self _, Dict.get?_eq_none.mp hnone⟩
          · exact ⟨hb, hrec⟩
          · exact ⟨hb.construct fleetName, hrec'⟩
      | made i =>
          obtain ⟨rfl, hold, hnew⟩ := hs
          have hspawn : ∀ j, (s.managers j).running = true →
              (s.managers j).fleetName ≠ (s.managers i).fleetName := fun j hj =>
            hnew _ ((hrec j hj).resolve_right nofun)
          simp only [FleetSpawner.start]
          split
          · exact ⟨hb.spawn hold hspawn, AllRecorded.spawn hrec, fleetName_spawn _ i i, hold, hnew⟩
          · exact ⟨hb, hrec, trivial⟩
      | spawned i =>
          simp only [FleetSpawner.start]
          split
          · exact ⟨hb, hrec, hs⟩
          · rename_i hfail
            have hdead : (s.managers i).running = false := by
              rcases ho i rfl with rfl | hdead
              · simpa using hfail
              · exact hdead
            have hrec' : AllRecorded s.activeAdapters s.managers none := fun j hj =>
              .inl ((hrec j hj).resolve_right fun e => by cases e; rw [hdead] at hj; cases hj)
            exact ⟨hb, hrec', trivial⟩
      | started i =>
          obtain ⟨rfl, hold, hnew⟩ := hs
          exact ⟨hb.put hold, AllRecorded.put hrec hnew, trivial⟩

theorem SpawnerOk.stop (hb : Books s.activeAdapters s.managers s.nextManager)
    {names : List String} {stage : Option (ManagerId × StopStage)}
    (hc : ControlOk s.activeAdapters s.managers s.nextManager
      (.stopping requested names stage response)) :
    SpawnerOk (s.stop o requested response names stage) := by
  obtain ⟨hrec, hs⟩ := hc
  cases names with
  | nil => exact ⟨hb, hrec⟩
  | cons fleetName names =>
      cases stage with
      | none =>
          simp only [FleetSpawner.stop]
          split
          · exact ⟨hb, hrec, stoppingOk_none names⟩
          · rename_i i hi
            exact ⟨hb, hrec, Dict.mem_of_get? hi, trivial⟩
      | some p =>
          obtain ⟨i, stage⟩ := p
          obtain ⟨hmem, hstop⟩ := hs
          obtain ⟨hfade, hheld, hres⟩ := stop_spec o (hb.held i) hstop
          simp only [FleetSpawner.stop]
          generalize FleetAdapterProcessManager.stop o stage (s.managers i) = r at hfade hheld hres
          obtain ⟨m, res⟩ := r
          have hb' := hb.update hfade hheld
          have hrec' := hrec.update hfade
          have hm : Function.update s.managers i m i = m := Function.update_self _ _ _
          rcases res with stage' | _ | _
          · have hres' : StopOk (Function.update s.managers i m i) stage' := by rw [hm]; exact hres
            exact ⟨hb', hrec', hmem, hres'⟩
          · exact ⟨hb', hrec', stoppingOk_none names⟩
          · refine ⟨hb'.erase fleetName, AllRecorded.erase hrec' ?_, stoppingOk_none names⟩
            exact eq_of_named hmem
              (P := fun j => (Function.update s.managers i m j).running = false)
              (by rw [hm]; exact hres)

theorem SpawnerOk.tick (hb : Books s.activeAdapters s.managers s.nextManager) {dead : List String}
    (hc : ControlOk s.activeAdapters s.managers s.nextManager (.ticking dead)) :
    SpawnerOk (s.tick o dead) := by
  obtain ⟨hrec, hdead⟩ := hc
  cases dead with
  | nil => exact ⟨hb, hrec⟩
  | cons fleetName dead =>
      simp only [FleetSpawner.tick]
      split
      · refine ⟨hb.erase fleetName, hrec.erase (hdead fleetName List.mem_cons_self), ?_⟩
        intro n hn e he
        exact hdead n (List.mem_cons_of_mem _ hn) e (Dict.mem_erase.mp he).1
      · exact ⟨hb, hrec⟩

theorem SpawnerOk.clean (hb : Books s.activeAdapters s.managers s.nextManager)
    (hl : LooseRecorded s.activeAdapters s.managers) (final : Bool) : SpawnerOk (s.clean final) :=
  ⟨hb, hl, rfl, cleaningOk_none _⟩

theorem SpawnerOk.cleanup (hb : Books s.activeAdapters s.managers s.nextManager) {final : Bool}
    {adapters : List (String × ManagerId)} {stage : Option StopStage}
    (hc : ControlOk s.activeAdapters s.managers s.nextManager (.cleaning final adapters stage))
    (ho : ∀ e, adapters.head? = some e → stage = some .kill →
      o = .ok ∨ (s.managers e.2).running = false) :
    SpawnerOk (s.cleanup o final adapters stage) := by
  obtain ⟨hl, hactive, hs⟩ := hc
  cases adapters with
  | nil =>
      simp only [FleetSpawner.cleanup]
      split
      · exact ⟨hb, hl, hactive⟩
      · exact SpawnerOk.clean hb hl true
  | cons e adapters =>
      cases stage with
      | none => exact ⟨hb, hl, hactive, trivial⟩
      | some stage =>
          obtain ⟨fleetName, i⟩ := e
          obtain ⟨hfade, hheld, hres⟩ := stop_spec o (hb.held i) hs
          simp only [FleetSpawner.cleanup]
          generalize FleetAdapterProcessManager.stop o stage (s.managers i) = r at hfade hheld hres
          obtain ⟨m, res⟩ := r
          have hb' := hb.update hfade hheld
          have hl' := hl.update hfade
          have hm : Function.update s.managers i m i = m := Function.update_self _ _ _
          rcases res with stage' | returned
          · have hres' : StopOk (Function.update s.managers i m i) stage' := by rw [hm]; exact hres
            exact ⟨hb', hl', hactive, hres'⟩
          · have hquiet : m.loose = false := by
              refine Bool.eq_false_iff.mpr fun hloose => ?_
              have hrun := running_of_loose hloose
              cases returned with
              | true => exact absurd hrun (Bool.eq_false_iff.mp hres)
              | false =>
                  obtain ⟨rfl, hfail, hrun⟩ := hres hloose
                  rcases ho _ rfl rfl with hok | hdead
                  · exact hfail hok
                  · exact absurd hrun (Bool.eq_false_iff.mp hdead)
            have hmem : (fleetName, i) ∈ s.activeAdapters.entries := by
              rw [hactive]; exact List.mem_cons_self
            refine ⟨hb'.erase fleetName, LooseRecorded.erase hl' ?_, Dict.erase_head hactive,
              cleaningOk_none _⟩
            exact eq_of_named hmem (P := fun j => (Function.update s.managers i m j).loose = false)
              (by rw [hm]; exact hquiet)

end

theorem SpawnerOk.step {s s' : FleetSpawner} {a : SpawnerAction} (hs : SpawnerOk s)
    (ha : Careful s a) (h : s.step a = some s') : SpawnerOk s' := by
  obtain ⟨hb, hc⟩ := hs
  cases FleetSpawner.step_moves h with
  | startRequest fleetNames idle | stopRequest fleetNames idle =>
      rw [idle] at hc
      exact ⟨hb, hc, by cases fleetNames <;> trivial⟩
  | publishStatus idle =>
      rw [idle] at hc
      refine ⟨hb, hc, fun n hn e he heq => ?_⟩
      obtain ⟨e', he', rfl⟩ := List.mem_map.mp hn
      obtain ⟨hmem, hdead⟩ := List.mem_filter.mp he'
      rw [Dict.eq_of_mem he hmem heq]
      refine Bool.eq_false_iff.mpr fun hr => ?_
      simp [isRunning, hr, hb.held e'.2 hr] at hdead
  | start o busy =>
      simp only [Careful, busy] at ha
      rw [busy] at hc
      exact SpawnerOk.start hb hc fun i hi => by subst hi; exact ha
  | stop o busy =>
      rw [busy] at hc
      exact SpawnerOk.stop hb hc
  | tick o busy =>
      rw [busy] at hc
      exact SpawnerOk.tick hb hc
  | cleanup o busy =>
      simp only [Careful, busy] at ha
      rw [busy] at hc
      refine SpawnerOk.cleanup hb hc fun e he hk => ?_
      obtain ⟨l, rfl⟩ := List.head?_eq_some_iff.mp he
      subst hk
      exact ha
  | die i =>
      have hheld : Held (s.managers i).die := fun hr => hb.held i ((fades_die _).running hr)
      exact ⟨hb.update (fades_die _) hheld, hc.update (fades_die _)⟩
  | signal running => exact SpawnerOk.clean hb (hc.looseRecorded ha) _
  | spinReturns idle =>
      rw [idle] at hc
      exact SpawnerOk.clean hb (hc.looseRecorded nofun) true

theorem SpawnerOk.reach {s : FleetSpawner} (h : fleetSpawner.Reach Careful s) : SpawnerOk s := by
  have books : Books fleetSpawner.init.activeAdapters fleetSpawner.init.managers 0 :=
    ⟨nofun, nofun, fun _ _ => rfl, nofun, nofun⟩
  exact h.invariant ⟨books, nofun⟩ fun _ _ _ ha hstep hs => hs.step ha hstep

/-! ### What the invariant says of a state -/

section

variable {s : FleetSpawner}

theorem SpawnerOk.recorded_or_pending (h : SpawnerOk s) {i : ManagerId}
    (hi : (s.managers i).loose = true) :
    Recorded s.activeAdapters s.managers i ∨ s.control.pending? = some i := by
  have hc := h.control
  have hr := running_of_loose hi
  cases hcontrol : s.control with
  | spinning => rw [hcontrol] at hc; exact hc i hr
  | starting | stopping | ticking => rw [hcontrol] at hc; exact hc.1 i hr
  | cleaning | exited => rw [hcontrol] at hc; exact .inl (hc.1 i hi)

/-- The manager being started is not stored: its fleet has none. -/
theorem SpawnerOk.not_recorded (h : SpawnerOk s) {i : ManagerId}
    (hi : s.control.pending? = some i) : ¬ Recorded s.activeAdapters s.managers i := by
  have hc := h.control
  cases hcontrol : s.control with
  | spinning | stopping | ticking | cleaning | exited => rw [hcontrol] at hi; cases hi
  | starting requested entries stage response =>
      rw [hcontrol] at hc hi
      have hs := hc.2
      cases entries with
      | nil =>
          cases stage with
          | next | made => cases hi
          | spawned | started => exact hs.elim
      | cons fleetName entries =>
          cases stage with
          | next | made => cases hi
          | spawned j | started j =>
              cases hi
              exact fun hrec => hs.new _ hrec hs.named

theorem SpawnerOk.cleaned (h : SpawnerOk s) : s.Cleaned := by
  intro hexit i
  have hc := h.control
  rw [hexit] at hc
  refine Bool.eq_false_iff.mpr fun hi => ?_
  have := hc.1 i hi
  rw [Recorded, hc.2] at this
  cases this

theorem SpawnerOk.accounted_iff (h : SpawnerOk s) : s.Accounted ↔ s.Settled := by
  refine ⟨fun ha i hi => ?_, fun hs => ⟨fun i hi => ?_, h.books.single, h.cleaned⟩⟩
  · exact Bool.eq_false_iff.mpr fun hl => h.not_recorded hi (ha.recorded i hl)
  · refine (h.recorded_or_pending hi).resolve_right fun hp => ?_
    rw [hs i hp] at hi
    cases hi

end

/-- **Every process is accounted for**, while none waits to be stored. -/
theorem processes_accounted {s : FleetSpawner} (h : fleetSpawner.Reach Careful s) :
    (s.Accounted ↔ s.Settled) ∧ s.Single ∧ s.Cleaned :=
  have hs := SpawnerOk.reach h
  ⟨hs.accounted_iff, hs.books.single, hs.cleaned⟩

/-- One adapter is started; then a signal arrives, and its process terminates. -/
def lifetime : List SpawnerAction :=
  [.startFleetAdapters ["fleet_a"], .advance .ok, .advance .ok, .advance .ok, .advance .ok,
    .advance .ok, .signal, .advance .ok, .advance .ok, .die 0, .advance .ok, .advance .ok,
    .advance .ok, .advance .ok, .advance .ok]

theorem processes_accounted_lifetime : ∃ s : FleetSpawner, s.control = .exited ∧ s.nextManager = 1 ∧
    s.Accounted := by
  refine ⟨_, ?_, ?_, (processes_accounted ⟨lifetime, .cons trivial rfl <| .cons trivial rfl <|
    .cons trivial rfl <| .cons (.inl rfl) rfl <| .cons trivial rfl <| .cons trivial rfl <|
    .cons (fun i hi => by cases hi) rfl <| .cons trivial rfl <| .cons (.inl rfl) rfl <|
    .cons trivial rfl <| .cons trivial rfl <| .cons trivial rfl <| .cons trivial rfl <|
    .cons trivial rfl <| .cons trivial rfl (.nil _)⟩).1.mpr fun i hi => by cases hi⟩
  · rfl
  · rfl

/-- A signal arrives while `start` waits for the process it has spawned. -/
def interrupted : List SpawnerAction :=
  [.startFleetAdapters ["fleet_a"], .advance .ok, .advance .ok, .signal, .advance .ok, .advance .ok]

/-- The spawner exits, and the process runs on, never signalled. -/
theorem process_left_running :
    ¬ ∀ s : FleetSpawner, fleetSpawner.Reach (fun _ _ => True) s → s.Accounted := by
  intro h
  have hrun : ∃ s, fleetSpawner.runs (fun _ _ => True) fleetSpawner.init interrupted = some s ∧
      s.control = .exited ∧ (s.managers 0).loose = true := ⟨_, rfl, rfl, rfl⟩
  obtain ⟨s, hs, hexit, hloose⟩ := hrun
  have hquiet := (h s ⟨interrupted, Lts.run_of_runs hs⟩).cleaned hexit 0
  rw [hloose] at hquiet
  cases hquiet

end EgbFleet.Spawner
