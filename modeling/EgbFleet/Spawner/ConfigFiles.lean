import EgbFleet.Spawner.Machine

/-!
# Spawner — configuration files

A manager's constructor makes a temporary configuration file, and only a `stop` that gets as far
deletes it.  So the files that exist between two callbacks should be those of the managers in
`active_adapters`; but a manager that fails to start, or whose process is found dead, or whose
`stop` fails in `cleanup`, leaves its file behind.

`files_of_active`: in every run in which a manager that is made comes to be stored, and leaves
`active_adapters` by a `stop` that succeeds, the files are those of the active managers whenever the
main thread is between two callbacks, and none is left once it has exited.
-/

namespace EgbFleet.Spawner

open FleetAdapterProcessManager

/-! ### What is to hold -/

/-- Manager `i` is stored. -/
def Active (active : Dict String ManagerId) (i : ManagerId) : Prop :=
  ∃ fleetName, (fleetName, i) ∈ active.entries

/-- The files that exist are those of the stored managers. -/
def FleetSpawner.FilesMatch (s : FleetSpawner) : Prop :=
  ∀ i, (s.managers i).configFile = true ↔ Active s.activeAdapters i

/-- A manager that has made its file starts, and no signal comes before it is stored; `stop` does
not fail once it has deleted the file, nor in `cleanup` before; and a status tick finds no dead
adapter. -/
def Tidy (s : FleetSpawner) : SpawnerAction → Prop
  | .advance o =>
      match s.control with
      | .starting _ _ .next _ => ∀ message, o ≠ .raisesLate message
      | .starting _ _ (.made _) _ => o = .ok
      | .starting _ _ (.spawned i) _ => o = .ok ∧ (s.managers i).running = true
      | .stopping _ _ (some (_, .finish)) _ => o = .ok
      | .cleaning _ ((_, i) :: _) (some _) => o = .ok ∨ (s.managers i).configFile = false
      | _ => True
  | .publishStatus => ∀ e ∈ s.activeAdapters.entries, (s.managers e.2).isRunning = true
  | .signal =>
      match s.control with
      | .starting _ _ stage _ => stage = .next
      | _ => True
  | _ => True

/-! ### One manager -/

section

variable {m m' : FleetAdapterProcessManager}

/-- A step that touches neither the file nor `self.process`. -/
structure SameFile (m m' : FleetAdapterProcessManager) : Prop where
  fleetName : m'.fleetName = m.fleetName
  configFile : m'.configFile = m.configFile
  process : m'.process = m.process

/-- A step of `stop`, where there is a process to stop. -/
inductive StopStep (o : Outcome) (m : FleetAdapterProcessManager) :
    StopStage → FleetAdapterProcessManager → StopStage ⊕ Bool → Prop where
  | goes {stage stage' : StopStage} {m' : FleetAdapterProcessManager} (same : SameFile m m')
      (hstage : stage ≠ .finish ∧ stage' ≠ .finish) : StopStep o m stage m' (.inl stage')
  | unlinks (ho : o = .ok) : StopStep o m .unlink { m with configFile := false } (.inl .finish)
  | finishes (ho : o = .ok) : StopStep o m .finish { m with process := false } (.inr true)
  | fails {stage : StopStage} (ho : o ≠ .ok) : StopStep o m stage m (.inr false)

theorem stopStep (o : Outcome) (stage : StopStage) (hp : m.process = true) :
    StopStep o m stage (stop o stage m).1 (stop o stage m).2 := by
  cases o with
  | ok =>
      cases stage with
      | kill =>
          simp only [stop, hp, if_true]
          exact .goes ⟨rfl, rfl, rfl⟩ (by decide)
      | wait => exact .goes ⟨rfl, rfl, rfl⟩ ⟨by decide, by split <;> decide⟩
      | unlink => exact .unlinks rfl
      | finish => exact .finishes rfl
  | raises _ | raisesLate _ =>
      cases stage with
      | kill => simpa only [stop, hp, Bool.not_true] using StopStep.fails (by simp)
      | wait | unlink | finish => exact .fails (by simp)

end

/-! ### The filing -/

/-- What holds wherever the main thread is. -/
structure Filing (active : Dict String ManagerId)
    (managers : ManagerId → FleetAdapterProcessManager) (next : ManagerId) : Prop where
  named : ∀ e ∈ active.entries, (managers e.2).fleetName = e.1
  old : ∀ e ∈ active.entries, e.2 < next
  held : ∀ e ∈ active.entries, (managers e.2).process = true
  fresh : ∀ i, next ≤ i → (managers i).configFile = false

section

variable (active : Dict String ManagerId) (managers : ManagerId → FleetAdapterProcessManager)
  (next : ManagerId)

/-- The files that exist are those of the managers of which `P` holds. -/
def FilesOf (P : ManagerId → Prop) : Prop := ∀ j, (managers j).configFile = true ↔ P j

/-- No file exists but those of stored managers. -/
def NoneOver : Prop := ∀ j, (managers j).configFile = true → Active active j

/-- Manager `i` is being started, for a fleet that has none. -/
structure Starting (fleetName : String) (i : ManagerId) : Prop where
  named : (managers i).fleetName = fleetName
  old : i < next
  new : ∀ e ∈ active.entries, e.1 ≠ fleetName
  files : FilesOf managers fun j => Active active j ∨ j = i

def StartFiles : StartStage → List String → Prop
  | .next, _ => FilesOf managers (Active active)
  | .made i, entries =>
      ∃ fleetName, entries.head? = some fleetName ∧ Starting active managers next fleetName i
  | .spawned i, entries | .started i, entries =>
      ∃ fleetName, entries.head? = some fleetName ∧ Starting active managers next fleetName i ∧
        (managers i).process = true

/-- `stop` has deleted the file of the manager it is about to return from. -/
def StopFiles : Option (ManagerId × StopStage) → List String → Prop
  | none, _ => FilesOf managers (Active active)
  | some (i, stage), names =>
      ∃ fleetName, names.head? = some fleetName ∧ (fleetName, i) ∈ active.entries ∧
        FilesOf managers fun j => Active active j ∧ (stage = .finish → j ≠ i)

def FilesOk : Control → Prop
  | .spinning => FilesOf managers (Active active)
  | .starting _ entries stage _ => StartFiles active managers next stage entries
  | .stopping _ names stage _ => StopFiles active managers stage names
  | .ticking dead => dead = [] ∧ FilesOf managers (Active active)
  | .cleaning _ adapters stage =>
      NoneOver active managers ∧ active.entries = adapters ∧
        ∀ e, adapters.head? = some e → stage = some .finish → (managers e.2).configFile = false
  | .exited => NoneOver active managers ∧ active.entries = []

end

structure SpawnerFiled (s : FleetSpawner) : Prop where
  filing : Filing s.activeAdapters s.managers s.nextManager
  files : FilesOk s.activeAdapters s.managers s.nextManager s.control

section

variable {active : Dict String ManagerId} {managers : ManagerId → FleetAdapterProcessManager}
  {next i : ManagerId} {m : FleetAdapterProcessManager} {P : ManagerId → Prop} {fleetName : String}

/-! ### Steps that touch no file -/

theorem sameFile_update (hm : SameFile (managers i) m) (j : ManagerId) :
    SameFile (managers j) (Function.update managers i m j) where
  fleetName := apply_update_eq FleetAdapterProcessManager.fleetName hm.fleetName j
  configFile := apply_update_eq FleetAdapterProcessManager.configFile hm.configFile j
  process := apply_update_eq FleetAdapterProcessManager.process hm.process j

theorem FilesOf.update (h : FilesOf managers P) (hm : SameFile (managers i) m) :
    FilesOf (Function.update managers i m) P := fun j => by
  rw [(sameFile_update hm j).configFile]
  exact h j

theorem NoneOver.update (h : NoneOver active managers) (hm : SameFile (managers i) m) :
    NoneOver active (Function.update managers i m) := fun j hj =>
  h j ((sameFile_update hm j).configFile ▸ hj)

theorem Filing.update (h : Filing active managers next) (hm : SameFile (managers i) m) :
    Filing active (Function.update managers i m) next where
  named := fun e he => (sameFile_update hm _).fleetName.trans (h.named e he)
  old := h.old
  held := fun e he => (sameFile_update hm _).process.trans (h.held e he)
  fresh := fun j hj => (sameFile_update hm _).configFile.trans (h.fresh j hj)

theorem Starting.update (h : Starting active managers next fleetName i) {k : ManagerId}
    (hm : SameFile (managers k) m) :
    Starting active (Function.update managers k m) next fleetName i where
  named := (sameFile_update hm _).fleetName.trans h.named
  old := h.old
  new := h.new
  files := h.files.update hm

theorem FilesOk.update {c : Control} (h : FilesOk active managers next c)
    (hm : SameFile (managers i) m) : FilesOk active (Function.update managers i m) next c := by
  cases c with
  | spinning => exact FilesOf.update h hm
  | starting requested entries stage response =>
      cases stage with
      | next => exact FilesOf.update h hm
      | made j =>
          obtain ⟨fleetName, hhead, hs⟩ := h
          exact ⟨fleetName, hhead, hs.update hm⟩
      | spawned j | started j =>
          obtain ⟨fleetName, hhead, hs, hp⟩ := h
          exact ⟨fleetName, hhead, hs.update hm, (sameFile_update hm _).process.trans hp⟩
  | stopping requested names stage response =>
      cases stage with
      | none => exact FilesOf.update h hm
      | some p =>
          obtain ⟨fleetName, hhead, hmem, hf⟩ := h
          exact ⟨fleetName, hhead, hmem, hf.update hm⟩
  | ticking dead => exact ⟨h.1, h.2.update hm⟩
  | cleaning final adapters stage =>
      exact ⟨h.1.update hm, h.2.1, fun e he hst =>
        (sameFile_update hm _).configFile.trans (h.2.2 e he hst)⟩
  | exited => exact ⟨h.1.update hm, h.2⟩

/-! ### Steps that do -/

theorem Filing.construct (h : Filing active managers next) (fleetName : String) :
    Filing active
      (Function.update managers next { fleetName, configFile := true }) (next + 1) := by
  have hsame : ∀ e ∈ active.entries,
      Function.update managers next { fleetName, configFile := true } e.2 = managers e.2 :=
    fun e he => Function.update_of_ne (Nat.ne_of_lt (h.old e he)) _ _
  refine ⟨fun e he => ?_, fun e he => Nat.lt_succ_of_lt (h.old e he), fun e he => ?_, ?_⟩
  · rw [hsame e he]; exact h.named e he
  · rw [hsame e he]; exact h.held e he
  · intro j hj
    rw [Function.update_of_ne (Nat.ne_of_gt hj)]
    exact h.fresh j (Nat.le_of_succ_le hj)

theorem FilesOf.construct (h : FilesOf managers (Active active)) (fleetName : String) :
    FilesOf (Function.update managers next { fleetName, configFile := true })
      fun j => Active active j ∨ j = next := by
  intro j
  by_cases e : j = next
  · subst e; simp
  · rw [Function.update_of_ne e, h j]
    simp [e]

theorem configFile_spawn (managers : ManagerId → FleetAdapterProcessManager) (i j : ManagerId) :
    (Function.update managers i (managers i).spawn j).configFile = (managers j).configFile :=
  apply_update_eq FleetAdapterProcessManager.configFile (by rfl) j

theorem Filing.spawn (h : Filing active managers next) :
    Filing active (Function.update managers i (managers i).spawn) next where
  named := fun e he =>
    (apply_update_eq FleetAdapterProcessManager.fleetName (by rfl) e.2).trans (h.named e he)
  old := h.old
  held := by
    intro e he
    by_cases hi : e.2 = i
    · rw [hi, Function.update_self]; rfl
    · rw [Function.update_of_ne hi]; exact h.held e he
  fresh := fun j hj => (configFile_spawn managers i j).trans (h.fresh j hj)

theorem Filing.put (h : Filing active managers next) (hi : i < next)
    (hp : (managers i).process = true) :
    Filing (active.put (managers i).fleetName i) managers next := by
  refine ⟨fun e he => ?_, fun e he => ?_, fun e he => ?_, h.fresh⟩
  all_goals rcases Dict.mem_put.mp he with ⟨he, -⟩ | rfl
  · exact h.named e he
  · rfl
  · exact h.old e he
  · exact hi
  · exact h.held e he
  · exact hp

theorem active_put (hnew : ∀ e ∈ active.entries, e.1 ≠ fleetName) {j : ManagerId} :
    Active (active.put fleetName i) j ↔ Active active j ∨ j = i := by
  simp only [Active, Dict.mem_put]
  constructor
  · rintro ⟨name, ⟨hmem, -⟩ | e⟩
    · exact .inl ⟨name, hmem⟩
    · cases e; exact .inr rfl
  · rintro (⟨name, hmem⟩ | rfl)
    · exact ⟨name, .inl ⟨hmem, hnew _ hmem⟩⟩
    · exact ⟨fleetName, .inr rfl⟩

/-- The manager stored under a name is gone with it, and no other is. -/
theorem active_erase (h : Filing active managers next) (hmem : (fleetName, i) ∈ active.entries)
    {j : ManagerId} : Active (active.erase fleetName) j ↔ Active active j ∧ j ≠ i := by
  simp only [Active, Dict.mem_erase]
  constructor
  · rintro ⟨name, hj, hne⟩
    refine ⟨⟨name, hj⟩, ?_⟩
    rintro rfl
    exact hne ((h.named _ hj).symm.trans (h.named _ hmem))
  · rintro ⟨⟨name, hj⟩, hne⟩
    refine ⟨name, hj, fun e => hne ?_⟩
    exact congrArg Prod.snd (Dict.eq_of_mem hj hmem e)

theorem Filing.unlink (h : Filing active managers next) (hi : i < next) :
    Filing active
      (Function.update managers i { managers i with configFile := false }) next where
  named := fun e he =>
    (apply_update_eq FleetAdapterProcessManager.fleetName (by rfl) e.2).trans (h.named e he)
  old := h.old
  held := fun e he =>
    (apply_update_eq FleetAdapterProcessManager.process (by rfl) e.2).trans (h.held e he)
  fresh := fun j hj => by
    rw [Function.update_of_ne (Nat.ne_of_gt (Nat.lt_of_lt_of_le hi hj))]
    exact h.fresh j hj

/-- A manager that is no longer stored may be in any state. -/
theorem Filing.drop (h : Filing active managers next) (hmem : (fleetName, i) ∈ active.entries)
    (m : FleetAdapterProcessManager) :
    Filing (active.erase fleetName) (Function.update managers i m) next := by
  have hsame : ∀ e ∈ (active.erase fleetName).entries,
      e ∈ active.entries ∧ Function.update managers i m e.2 = managers e.2 := by
    intro e he
    have hne := ((active_erase h hmem).mp ⟨e.1, he⟩).2
    exact ⟨(Dict.mem_erase.mp he).1, Function.update_of_ne hne _ _⟩
  refine ⟨fun e he => ?_, fun e he => h.old e (hsame e he).1, fun e he => ?_, fun j hj => ?_⟩
  · rw [(hsame e he).2]; exact h.named e (hsame e he).1
  · rw [(hsame e he).2]; exact h.held e (hsame e he).1
  · rw [Function.update_of_ne (Nat.ne_of_gt (Nat.lt_of_lt_of_le (h.old _ hmem) hj))]
    exact h.fresh j hj

theorem configFile_unlink (managers : ManagerId → FleetAdapterProcessManager) (i j : ManagerId) :
    (Function.update managers i { managers i with configFile := false } j).configFile = true ↔
      (managers j).configFile = true ∧ j ≠ i := by
  by_cases e : j = i
  · subst e; simp
  · rw [Function.update_of_ne e]; simp [e]

/-- Its file is gone, and it is no longer stored. -/
theorem NoneOver.drop (hf : Filing active managers next)
    (hmem : (fleetName, i) ∈ active.entries) (h : NoneOver active managers)
    (hgone : m.configFile = false) :
    NoneOver (active.erase fleetName) (Function.update managers i m) := by
  intro j hj
  by_cases e : j = i
  · subst e
    rw [Function.update_self, hgone] at hj
    cases hj
  · rw [Function.update_of_ne e] at hj
    exact (active_erase hf hmem).mpr ⟨h j hj, e⟩

end

/-! ### Steps -/

section

variable {s : FleetSpawner} {o : Outcome} {requested : Nat} {response : Response}

theorem SpawnerFiled.start (hf : Filing s.activeAdapters s.managers s.nextManager)
    {entries : List String} {stage : StartStage}
    (hc : StartFiles s.activeAdapters s.managers s.nextManager stage entries)
    (hnext : stage = .next → ∀ message, o ≠ .raisesLate message)
    (hmade : ∀ i, stage = .made i → o = .ok)
    (hspawned : ∀ i, stage = .spawned i → o = .ok ∧ (s.managers i).running = true) :
    SpawnerFiled (s.start o requested response entries stage) := by
  cases stage with
  | next =>
      cases entries with
      | nil => exact ⟨hf, hc⟩
      | cons fleetName entries =>
          simp only [FleetSpawner.start]
          split
          · exact ⟨hf, hc⟩
          · rename_i hnone
            refine ⟨hf.construct fleetName, fleetName, rfl, ?_⟩
            exact ⟨congrArg _ (Function.update_self _ _ _), Nat.lt_succ_self _,
              Dict.get?_eq_none.mp hnone, FilesOf.construct hc fleetName⟩
          · exact ⟨hf, hc⟩
          · exact absurd rfl (hnext rfl _)
  | made i =>
      obtain ⟨fleetName, hhead, hs⟩ := hc
      obtain ⟨entries, rfl⟩ := List.head?_eq_some_iff.mp hhead
      cases hmade i rfl
      refine ⟨hf.spawn, fleetName, rfl, ⟨?_, hs.old, hs.new, ?_⟩, ?_⟩
      · exact (congrArg _ (Function.update_self _ _ _)).trans hs.named
      · intro j
        exact (Bool.eq_iff_iff.mp (configFile_spawn s.managers i j)).trans (hs.files j)
      · exact congrArg _ (Function.update_self _ _ _)
  | spawned i =>
      obtain ⟨fleetName, hhead, hs, hp⟩ := hc
      obtain ⟨entries, rfl⟩ := List.head?_eq_some_iff.mp hhead
      simp only [FleetSpawner.start, if_pos (hspawned i rfl)]
      exact ⟨hf, fleetName, rfl, hs, hp⟩
  | started i =>
      obtain ⟨fleetName, hhead, ⟨rfl, hold, hnew, hfiles⟩, hp⟩ := hc
      obtain ⟨entries, rfl⟩ := List.head?_eq_some_iff.mp hhead
      exact ⟨hf.put hold hp, fun j => (hfiles j).trans (active_put hnew).symm⟩

theorem SpawnerFiled.stop (hf : Filing s.activeAdapters s.managers s.nextManager)
    {names : List String} {stage : Option (ManagerId × StopStage)}
    (hc : StopFiles s.activeAdapters s.managers stage names)
    (hfinish : ∀ i, stage = some (i, .finish) → o = .ok) :
    SpawnerFiled (s.stop o requested response names stage) := by
  cases stage with
  | none =>
      cases names with
      | nil => exact ⟨hf, hc⟩
      | cons fleetName names =>
          simp only [FleetSpawner.stop]
          split
          · exact ⟨hf, hc⟩
          · rename_i i hi
            exact ⟨hf, fleetName, rfl, Dict.mem_of_get? hi, fun j => by simpa using hc j⟩
  | some p =>
      obtain ⟨i, stage⟩ := p
      obtain ⟨fleetName, hhead, hmem, hfiles⟩ := hc
      obtain ⟨names, rfl⟩ := List.head?_eq_some_iff.mp hhead
      have hstep := stopStep o stage (hf.held _ hmem)
      simp only [FleetSpawner.stop]
      generalize FleetAdapterProcessManager.stop o stage (s.managers i) = r at hstep
      obtain ⟨m, res⟩ := r
      cases hstep with
      | goes same hstage =>
          refine ⟨hf.update same, fleetName, rfl, hmem, fun j => ?_⟩
          have := hfiles.update same j
          simp only [hstage.1, hstage.2, false_implies, and_true] at this ⊢
          exact this
      | unlinks =>
          refine ⟨hf.unlink (hf.old _ hmem), fleetName, rfl, hmem, fun j => ?_⟩
          have := hfiles j
          simp only [reduceCtorEq, false_implies, and_true] at this
          simpa [FleetSpawner.modify] using (configFile_unlink s.managers i j).trans
            (and_congr_left' this)
      | finishes =>
          refine ⟨hf.drop hmem _, fun j => ?_⟩
          have := (hfiles j).trans (and_congr_right' (forall_prop_of_true rfl))
          refine Iff.trans ?_ (this.trans (active_erase hf hmem).symm)
          exact Bool.eq_iff_iff.mp
            (apply_update_eq FleetAdapterProcessManager.configFile (by rfl) j)
      | fails ho =>
          have hstage : stage ≠ .finish := fun e => ho (hfinish i (e ▸ rfl))
          have same : SameFile (s.managers i) (s.managers i) := ⟨rfl, rfl, rfl⟩
          refine ⟨hf.update same, fun j => ?_⟩
          have := hfiles.update same j
          simp only [hstage, false_implies, and_true] at this
          exact this

theorem SpawnerFiled.clean (hf : Filing s.activeAdapters s.managers s.nextManager)
    (h : NoneOver s.activeAdapters s.managers) (final : Bool) : SpawnerFiled (s.clean final) :=
  ⟨hf, h, rfl, fun _ _ h => by cases h⟩

theorem SpawnerFiled.cleanup (hf : Filing s.activeAdapters s.managers s.nextManager) {final : Bool}
    {adapters : List (String × ManagerId)} {stage : Option StopStage}
    (hc : FilesOk s.activeAdapters s.managers s.nextManager (.cleaning final adapters stage))
    (ho : ∀ e, adapters.head? = some e → stage ≠ none →
      o = .ok ∨ (s.managers e.2).configFile = false) :
    SpawnerFiled (s.cleanup o final adapters stage) := by
  obtain ⟨hnone, hactive, hgone⟩ := hc
  cases adapters with
  | nil =>
      simp only [FleetSpawner.cleanup]
      split
      · exact ⟨hf, hnone, hactive⟩
      · exact SpawnerFiled.clean hf hnone true
  | cons e adapters =>
      obtain ⟨fleetName, i⟩ := e
      cases stage with
      | none => exact ⟨hf, hnone, hactive, fun _ _ h => by cases h⟩
      | some stage =>
          have hmem : (fleetName, i) ∈ s.activeAdapters.entries := by
            rw [hactive]; exact List.mem_cons_self
          have hdrop {m : FleetAdapterProcessManager} (hm : m.configFile = false) :
              SpawnerFiled { (s.modify i m).delete fleetName with
                control := .cleaning final adapters none } :=
            ⟨hf.drop hmem m, hnone.drop hf hmem hm, Dict.erase_head hactive,
              fun _ _ h => by cases h⟩
          have hstep := stopStep o stage (hf.held _ hmem)
          simp only [FleetSpawner.cleanup]
          generalize FleetAdapterProcessManager.stop o stage (s.managers i) = r at hstep
          obtain ⟨m, res⟩ := r
          cases hstep with
          | goes same hstage =>
              exact ⟨hf.update same, hnone.update same, hactive,
                fun _ _ h => absurd (Option.some.inj h) hstage.2⟩
          | unlinks =>
              refine ⟨hf.unlink (hf.old _ hmem), fun j hj => ?_, hactive, ?_⟩
              · exact hnone j ((configFile_unlink s.managers i j).mp hj).1
              · rintro _ ⟨⟩ -
                exact congrArg _ (Function.update_self _ _ _)
          | finishes => exact hdrop (hgone _ rfl rfl)
          | fails hfail => exact hdrop ((ho _ rfl (by simp)).resolve_left hfail)

end

theorem SpawnerFiled.signal {s : FleetSpawner} (hs : SpawnerFiled s) (ha : Tidy s .signal) :
    NoneOver s.activeAdapters s.managers := by
  have hc := hs.files
  simp only [Tidy] at ha
  cases hcontrol : s.control with
  | spinning =>
      rw [hcontrol] at hc
      exact fun j => (hc j).mp
  | starting requested entries stage response =>
      rw [hcontrol] at hc ha
      cases ha
      exact fun j => (hc j).mp
  | stopping requested names stage response =>
      rw [hcontrol] at hc
      cases stage with
      | none => exact fun j => (hc j).mp
      | some p =>
          obtain ⟨_, -, -, hfiles⟩ := hc
          exact fun j hj => ((hfiles j).mp hj).1
  | ticking dead =>
      rw [hcontrol] at hc
      exact fun j => (hc.2 j).mp
  | cleaning | exited =>
      rw [hcontrol] at hc
      exact hc.1

theorem SpawnerFiled.step {s s' : FleetSpawner} {a : SpawnerAction} (hs : SpawnerFiled s)
    (ha : Tidy s a) (h : s.step a = some s') : SpawnerFiled s' := by
  obtain ⟨hf, hc⟩ := hs
  cases FleetSpawner.step_moves h with
  | startRequest fleetNames idle | stopRequest fleetNames idle =>
      rw [idle] at hc
      exact ⟨hf, hc⟩
  | publishStatus idle =>
      rw [idle] at hc
      refine ⟨hf, ?_, hc⟩
      rw [List.map_eq_nil_iff, List.filter_eq_nil_iff]
      intro e he
      simp [ha e he]
  | start o busy =>
      simp only [Tidy, busy] at ha
      rw [busy] at hc
      refine SpawnerFiled.start hf hc ?_ ?_ ?_
      · rintro rfl; exact ha
      · rintro i rfl; exact ha
      · rintro i rfl; exact ha
  | stop o busy =>
      simp only [Tidy, busy] at ha
      rw [busy] at hc
      refine SpawnerFiled.stop hf hc ?_
      rintro i rfl
      exact ha
  | tick o busy =>
      rw [busy] at hc
      obtain ⟨rfl, hc⟩ := hc
      exact ⟨hf, hc⟩
  | cleanup o busy =>
      simp only [Tidy, busy] at ha
      rw [busy] at hc
      refine SpawnerFiled.cleanup hf hc fun e he hstage => ?_
      obtain ⟨l, rfl⟩ := List.head?_eq_some_iff.mp he
      obtain ⟨stage, rfl⟩ := Option.ne_none_iff_exists'.mp hstage
      exact ha
  | die i =>
      have same : SameFile (s.managers i) (s.managers i).die := ⟨rfl, rfl, rfl⟩
      exact ⟨hf.update same, hc.update same⟩
  | signal running => exact SpawnerFiled.clean hf (SpawnerFiled.signal ⟨hf, hc⟩ ha) _
  | spinReturns idle =>
      rw [idle] at hc
      exact SpawnerFiled.clean hf (fun j => (hc j).mp) true

/-- **The files are those of the active managers**, between two callbacks and at the end. -/
theorem files_of_active {s : FleetSpawner} (h : fleetSpawner.Reach Tidy s)
    (hcontrol : s.control = .spinning ∨ s.control = .exited) : s.FilesMatch := by
  have hnone : ∀ i, ¬ Active Dict.empty i := by
    rintro i ⟨_, hmem⟩
    cases hmem
  have hinit : SpawnerFiled fleetSpawner.init := by
    refine ⟨⟨?_, ?_, ?_, fun _ _ => rfl⟩, fun i => iff_of_false Bool.false_ne_true (hnone i)⟩
    all_goals
      intro e he
      cases he
  have hc := (h.invariant hinit fun s a s' ha hstep hs => hs.step ha hstep).files
  rcases hcontrol with e | e
  · rw [e] at hc
    exact hc
  · rw [e] at hc
    intro i
    refine ⟨hc.1 i, ?_⟩
    rintro ⟨_, hmem⟩
    rw [hc.2] at hmem
    cases hmem

/-- Two adapters are started, and one is stopped. -/
def oneStopped : List SpawnerAction :=
  [.startFleetAdapters ["fleet_a", "fleet_b"], .advance .ok, .advance .ok, .advance .ok,
    .advance .ok, .advance .ok, .advance .ok, .advance .ok, .advance .ok, .advance .ok,
    .stopFleetAdapters ["fleet_a"], .advance .ok, .advance .ok, .die 0, .advance .ok, .advance .ok,
    .advance .ok, .advance .ok]

theorem files_of_active_oneStopped : ∃ s : FleetSpawner,
    s.activeAdapters.entries = [("fleet_b", 1)] ∧ s.FilesMatch := by
  refine ⟨_, ?_, files_of_active ⟨oneStopped, .cons trivial rfl <| .cons nofun rfl <|
    .cons rfl rfl <| .cons ⟨rfl, rfl⟩ rfl <| .cons trivial rfl <| .cons nofun rfl <|
    .cons rfl rfl <| .cons ⟨rfl, rfl⟩ rfl <| .cons trivial rfl <| .cons nofun rfl <|
    .cons trivial rfl <| .cons trivial rfl <| .cons trivial rfl <| .cons trivial rfl <|
    .cons trivial rfl <| .cons trivial rfl <| .cons rfl rfl <| .cons trivial rfl (.nil _)⟩
    (.inl rfl)⟩
  rfl

/-- A process dies while `start` waits. -/
def stillborn : List SpawnerAction :=
  [.startFleetAdapters ["fleet_a"], .advance .ok, .advance .ok, .die 0, .advance .ok, .advance .ok]

/-- The start has failed, no manager is stored, and the file is still there. -/
theorem file_left_behind :
    ¬ ∀ s : FleetSpawner, fleetSpawner.Reach (fun _ _ => True) s →
      s.control = .spinning ∨ s.control = .exited → s.FilesMatch := by
  intro h
  have hrun : ∃ s, fleetSpawner.runs (fun _ _ => True) fleetSpawner.init stillborn = some s ∧
      s.control = .spinning ∧ (s.managers 0).configFile = true ∧ s.activeAdapters.entries = [] :=
    ⟨_, rfl, rfl, rfl, rfl⟩
  obtain ⟨s, hs, hspin, hfile, hnone⟩ := hrun
  obtain ⟨_, hmem⟩ := (h s ⟨stillborn, Lts.run_of_runs hs⟩ (.inl hspin) 0).mp hfile
  rw [hnone] at hmem
  cases hmem

end EgbFleet.Spawner
