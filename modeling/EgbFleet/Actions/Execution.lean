import EgbFleet.Actions.Categories
import EgbFleet.Actions.Polling

/-!
# Actions — `execute_action`

RMF hands `RobotState::execute_action` an `ActionExecution`, and waits until somebody concludes it.
The call resolves the category to a plugin, takes the plugin's factory from the cache or loads it,
and asks the factory for an action; what the plugin does at each point, and whether it raises a
`std::exception`, is a parameter (`Plugins`).

Only the last step moves the execution out of the call's own parameter.  Every other exit logs an
error and returns, and the execution goes with the parameter: it is neither stored nor concluded
(`executed_iff`).
-/

namespace EgbFleet.Actions

/-- What `pluginlib` and the plugins do in one call: `F` are factories, `D` descriptions, `A`
actions.  An error is the `what()` of the exception raised; a null pointer is `none`. -/
structure Plugins (F D A : Type) where
  /-- The constructor of `ClassLoader`. -/
  classLoader : Except String Unit
  createSharedInstance : String → Except String (Option F)
  /-- `initialize`. -/
  initializeFactory : F → Except String Unit
  supportsAction : F → String → Except String Bool
  performAction : F → String → D → ActivityId → Except String (Option A)

/-- The fields of `RobotState` that `execute_action` reads and writes. -/
structure RobotState (F A : Type) where
  name : String
  actionToPluginName : String → Option String
  /-- `action_loader_` and `action_context_` exist. -/
  actionLoader : Bool
  actionContext : Bool
  loadedFactories : String → Option F
  currentAction : Option A
  currentActionExecution : Option ActivityId

/-- Why `execute_action` gives up. -/
inductive Refusal where
  | unregistered
  | notLoaded (plugin : String)
  | unsupported (plugin : String)
  | noAction
  | raised (what : String)
  deriving DecidableEq

/-- What it logs then, of a call for `category`. -/
def Refusal.message (name category : String) : Refusal → String
  | .unregistered => s!"[{name}] No plugin registered for action category: {category}"
  | .notLoaded plugin => s!"[{name}] Failed to load plugin: {plugin}"
  | .unsupported plugin => s!"[{name}] Plugin {plugin} does not support action category: {category}"
  | .noAction => s!"[{name}] Plugin failed to create action for category: {category}"
  | .raised what => s!"[{name}] Exception while executing action {category}: {what}"

variable {F D A : Type}

namespace RobotState

/-- `action_loader_` is made on first use. -/
def ensureLoader (plugins : Plugins F D A) (s : RobotState F A) :
    RobotState F A × Except Refusal Unit :=
  if s.actionLoader then (s, .ok ())
  else
    match plugins.classLoader with
    | .ok () => ({ s with actionLoader := true }, .ok ())
    | .error what => (s, .error (.raised what))

/-- The factory of a plugin: the cached one, or one that is loaded, initialised and cached. -/
def loadFactory (plugins : Plugins F D A) (plugin : String) (s : RobotState F A) :
    RobotState F A × Except Refusal F :=
  match s.loadedFactories plugin with
  | some factory => (s, .ok factory)
  | none =>
      match plugins.createSharedInstance plugin with
      | .error what => (s, .error (.raised what))
      | .ok none => (s, .error (.notLoaded plugin))
      | .ok (some factory) =>
          let s := { s with actionContext := true }
          match plugins.initializeFactory factory with
          | .error what => (s, .error (.raised what))
          | .ok () =>
              ({ s with
                  loadedFactories := Function.update s.loadedFactories plugin (some factory) },
                .ok factory)

/-- The action the factory makes for this call. -/
def createAction (plugins : Plugins F D A) (plugin category : String) (description : D)
    (e : ActivityId) (factory : F) : Except Refusal A :=
  match plugins.supportsAction factory category with
  | .error what => .error (.raised what)
  | .ok false => .error (.unsupported plugin)
  | .ok true =>
      match plugins.performAction factory category description e with
      | .error what => .error (.raised what)
      | .ok none => .error .noAction
      | .ok (some action) => .ok action

end RobotState

/-- What a call leaves: the robot, the parameter `execution` (moved from, or destroyed with what it
holds), the conclusions it called, and the error it logged. -/
structure Returned (F A : Type) where
  robot : RobotState F A
  execution : Option ActivityId
  concluded : List (ActivityId × Conclusion)
  error : Option String

/-- `RobotState::execute_action`, of the execution `e`. -/
def RobotState.executeAction (plugins : Plugins F D A) (category : String) (description : D)
    (e : ActivityId) (s : RobotState F A) : Returned F A :=
  let refuse (s : RobotState F A) (r : Refusal) : Returned F A :=
    ⟨s, some e, [], some (r.message s.name category)⟩
  match s.actionToPluginName category with
  | none => refuse s .unregistered
  | some plugin =>
      match s.ensureLoader plugins with
      | (s, .error r) => refuse s r
      | (s, .ok ()) =>
          match s.loadFactory plugins plugin with
          | (s, .error r) => refuse s r
          | (s, .ok factory) =>
              match createAction plugins plugin category description e factory with
              | .error r => refuse s r
              | .ok action =>
                  ⟨{ s with currentAction := some action, currentActionExecution := some e },
                    none, [], none⟩

/-! ### The execution is not dropped -/

/-- The execution `e` was moved into `current_action_execution_`, beside an action that some factory
made for this call; or it was concluded. -/
def Returned.Held (plugins : Plugins F D A) (category : String) (description : D) (e : ActivityId)
    (r : Returned F A) : Prop :=
  (r.execution = none ∧ r.robot.currentActionExecution = some e ∧ ∃ factory action,
    plugins.performAction factory category description e = .ok (some action) ∧
      r.robot.currentAction = some action) ∨
  ∃ c, (e, c) ∈ r.concluded

namespace RobotState

/-- The loader is there, or can be made. -/
def Loads (plugins : Plugins F D A) (s : RobotState F A) : Prop :=
  s.actionLoader = true ∨ plugins.classLoader = .ok ()

/-- The plugin's factory is cached, or can be created and initialised. -/
def Supplies (plugins : Plugins F D A) (plugin : String) (s : RobotState F A) (factory : F) :
    Prop :=
  s.loadedFactories plugin = some factory ∨
    s.loadedFactories plugin = none ∧ plugins.createSharedInstance plugin = .ok (some factory) ∧
      plugins.initializeFactory factory = .ok ()

/-- The category has a plugin, which loads, supports it and makes an action. -/
def Serves (plugins : Plugins F D A) (category : String) (description : D) (e : ActivityId)
    (s : RobotState F A) : Prop :=
  s.Loads plugins ∧ ∃ plugin factory action, s.actionToPluginName category = some plugin ∧
    s.Supplies plugins plugin factory ∧ plugins.supportsAction factory category = .ok true ∧
    plugins.performAction factory category description e = .ok (some action)

variable (plugins : Plugins F D A) (s : RobotState F A)

theorem ensureLoader_ok : (s.ensureLoader plugins).2 = .ok () ↔ s.Loads plugins := by
  by_cases h : s.actionLoader = true
  · simp [ensureLoader, Loads, h]
  · cases hc : plugins.classLoader <;> simp [ensureLoader, Loads, h, hc]

/-- Only the loader is made. -/
theorem ensureLoader_fst :
    ∃ loader, (s.ensureLoader plugins).1 = { s with actionLoader := loader } := by
  unfold ensureLoader
  split
  · exact ⟨s.actionLoader, rfl⟩
  · split
    · exact ⟨true, rfl⟩
    · exact ⟨s.actionLoader, rfl⟩

@[simp] theorem loadedFactories_ensureLoader :
    (s.ensureLoader plugins).1.loadedFactories = s.loadedFactories := by
  obtain ⟨loader, heq⟩ := ensureLoader_fst plugins s
  rw [heq]

variable {plugins s}

theorem loadFactory_ok {plugin : String} {factory : F} :
    (s.loadFactory plugins plugin).2 = .ok factory ↔ s.Supplies plugins plugin factory := by
  cases hl : s.loadedFactories plugin with
  | some f => simp [loadFactory, Supplies, hl]
  | none =>
      cases hc : plugins.createSharedInstance plugin with
      | error what => simp [loadFactory, Supplies, hl, hc]
      | ok created =>
          cases created with
          | none => simp [loadFactory, Supplies, hl, hc]
          | some f =>
              cases hi : plugins.initializeFactory f with
              | error what =>
                  simp only [loadFactory, Supplies, hl, hc, hi]
                  simp only [reduceCtorEq, Except.ok.injEq, Option.some.injEq, true_and, false_or,
                    false_iff, not_and]
                  rintro rfl
                  simp [hi]
              | ok _ =>
                  simp only [loadFactory, Supplies, hl, hc, hi]
                  simp only [reduceCtorEq, Except.ok.injEq, Option.some.injEq, true_and, false_or]
                  exact ⟨by rintro rfl; exact ⟨rfl, hi⟩, fun h => h.1⟩

theorem createAction_ok {plugin category : String} {description : D} {e : ActivityId} {factory : F}
    {action : A} :
    createAction plugins plugin category description e factory = .ok action ↔
      plugins.supportsAction factory category = .ok true ∧
        plugins.performAction factory category description e = .ok (some action) := by
  unfold createAction
  split
  · simp_all
  · simp_all
  · split <;> simp_all

/-- The factory is looked up past the loader. -/
theorem supplies_iff {plugin : String} {factory : F} {s₁ s₂ : RobotState F A} {r : Except Refusal F}
    (hl : s.ensureLoader plugins = (s₁, .ok ())) (hf : s₁.loadFactory plugins plugin = (s₂, r)) :
    s.Supplies plugins plugin factory ↔ r = .ok factory := by
  have h₁ := loadedFactories_ensureLoader plugins s
  rw [hl] at h₁
  have h₂ : r = .ok factory ↔ s₁.Supplies plugins plugin factory := by
    rw [← loadFactory_ok, hf]
  rw [h₂, Supplies, Supplies, h₁]

end RobotState

/-- A call that gives up leaves the execution to its parameter. -/
theorem Returned.not_held {plugins : Plugins F D A} {category : String} {description : D}
    {e : ActivityId} {s : RobotState F A} {m : Option String} :
    ¬ (Returned.mk s (some e) [] m).Held plugins category description e := by
  rintro (⟨h, -⟩ | ⟨c, hc⟩)
  · cases h
  · cases hc

/-- What a call has done to the robot when it gives up, or is about to store the action. -/
inductive RobotState.Prepared (plugins : Plugins F D A) (s : RobotState F A) :
    RobotState F A → Prop where
  | same : Prepared plugins s s
  | loader : Prepared plugins s (s.ensureLoader plugins).1
  | factory (plugin : String) :
      Prepared plugins s ((s.ensureLoader plugins).1.loadFactory plugins plugin).1

/-- A call gives up, and leaves the execution to its parameter; or the plugin serves it, and its
action is stored with the execution. -/
theorem RobotState.executeAction_cases (plugins : Plugins F D A) (category : String)
    (description : D) (e : ActivityId) (s : RobotState F A) :
    (¬ s.Serves plugins category description e ∧ ∃ s' m, Prepared plugins s s' ∧
      s.executeAction plugins category description e = ⟨s', some e, [], m⟩) ∨
    s.Serves plugins category description e ∧ ∃ s' plugin factory action,
      Prepared plugins s s' ∧ s.Supplies plugins plugin factory ∧
      plugins.performAction factory category description e = .ok (some action) ∧
      s.executeAction plugins category description e =
        ⟨{ s' with currentAction := some action, currentActionExecution := some e },
          none, [], none⟩ := by
  unfold executeAction Serves
  cases hp : s.actionToPluginName category with
  | none => exact .inl ⟨by simp, s, _, .same, rfl⟩
  | some plugin =>
      have hloads := ensureLoader_ok plugins s
      rcases hl : s.ensureLoader plugins with ⟨s₁, r | _⟩
      · rw [hl] at hloads
        have hs₁ : (s.ensureLoader plugins).1 = s₁ := by rw [hl]
        refine .inl ⟨fun h => ?_, s₁, _, hs₁ ▸ .loader, rfl⟩
        cases hloads.mpr h.1
      rw [hl] at hloads
      rcases hf : s₁.loadFactory plugins plugin with ⟨s₂, loaded⟩
      have hprepared : Prepared plugins s s₂ := by
        have hs₂ : ((s.ensureLoader plugins).1.loadFactory plugins plugin).1 = s₂ := by rw [hl, hf]
        exact hs₂ ▸ .factory plugin
      cases loaded with
      | error r =>
          refine .inl ⟨?_, s₂, some (r.message s₂.name category), hprepared, by simp only [hf]⟩
          rintro ⟨-, _, factory, action, ⟨⟩, hsupplies, -⟩
          cases (supplies_iff hl hf).mp hsupplies
      | ok factory =>
          have hsupplies : s.Supplies plugins plugin factory := (supplies_iff hl hf).mpr rfl
          cases ha : createAction plugins plugin category description e factory with
          | error r =>
              refine .inl ⟨?_, s₂, some (r.message s₂.name category), hprepared,
                by simp only [hf, ha]⟩
              rintro ⟨-, _, other, action, ⟨⟩, hother, hserves⟩
              cases (supplies_iff hl hf).mp hother
              rw [createAction_ok.mpr hserves] at ha
              cases ha
          | ok action =>
              have hserves := createAction_ok.mp ha
              exact .inr ⟨⟨hloads.mp rfl, plugin, factory, action, rfl, hsupplies, hserves⟩, s₂,
                plugin, factory, action, hprepared, hsupplies, hserves.2, by simp only [hf, ha]⟩

/-- **When the execution is not dropped.**  Just when the plugin serves the call. -/
theorem executed_iff (plugins : Plugins F D A) (category : String) (description : D)
    (e : ActivityId) (s : RobotState F A) :
    (s.executeAction plugins category description e).Held plugins category description e ↔
      s.Serves plugins category description e := by
  rcases s.executeAction_cases plugins category description e with
    ⟨hnot, s', m, -, heq⟩ | ⟨hserves, s', plugin, factory, action, -, -, hperformed, heq⟩
  · rw [heq]
    exact iff_of_false Returned.not_held hnot
  · rw [heq]
    exact iff_of_true (.inl ⟨rfl, rfl, factory, action, hperformed, rfl⟩) hserves

/-- With the shipped `plugins:` block, `go_to_place`, which RMF may dispatch, has no plugin. -/
theorem executed_dropped :
    ¬ ∀ (plugins : Plugins Unit Unit Unit) (category : String) (e : ActivityId)
      (s : RobotState Unit Unit),
      (s.executeAction plugins category () e).Held plugins category () e := by
  intro h
  let shipped : PluginsConfig := some [("egb_fleet::plugins::UndockActionFactory", some ["undock"])]
  have hnone : shipped.actionToPluginName "go_to_place" = none := by decide
  have := h ⟨.ok (), fun _ => .ok (some ()), fun _ => .ok (), fun _ c => .ok (c == "undock"),
    fun _ _ _ _ => .ok (some ())⟩ "go_to_place" 0
    ⟨"robot_ab12", shipped.actionToPluginName, false, false, fun _ => none, none, none⟩
  simp [RobotState.executeAction, hnone, Returned.not_held] at this

/-! ### What a call leaves in the cache -/

/-- A context that exists stays; each factory was cached before, or is a new instance, and then a
context exists. -/
structure RobotState.Caches (plugins : Plugins F D A) (s s' : RobotState F A) : Prop where
  context : s.actionContext = true → s'.actionContext = true
  factories : ∀ plugin factory, s'.loadedFactories plugin = some factory →
    s.loadedFactories plugin = some factory ∨
      s'.actionContext = true ∧ plugins.createSharedInstance plugin = .ok (some factory)

section

variable (plugins : Plugins F D A) (s : RobotState F A)

@[simp] theorem RobotState.actionContext_ensureLoader :
    (s.ensureLoader plugins).1.actionContext = s.actionContext := by
  obtain ⟨loader, heq⟩ := ensureLoader_fst plugins s
  rw [heq]

theorem RobotState.caches_loadFactory (plugin : String) :
    Caches plugins s (s.loadFactory plugins plugin).1 := by
  unfold loadFactory
  split
  · exact ⟨id, fun _ _ h => .inl h⟩
  · split
    · exact ⟨id, fun _ _ h => .inl h⟩
    · exact ⟨id, fun _ _ h => .inl h⟩
    · rename_i factory hcreated
      simp only
      split
      · exact ⟨fun _ => rfl, fun _ _ h => .inl h⟩
      · refine ⟨fun _ => rfl, fun other f h => ?_⟩
        dsimp only at h ⊢
        by_cases heq : other = plugin
        · subst heq
          rw [Function.update_self] at h
          exact .inr ⟨rfl, h ▸ hcreated⟩
        · rw [Function.update_of_ne heq] at h
          exact .inl h

theorem RobotState.caches_of_prepared {s' : RobotState F A} (h : s.Prepared plugins s') :
    Caches plugins s s' := by
  cases h with
  | same => exact ⟨id, fun _ _ h => .inl h⟩
  | loader =>
      refine ⟨fun h => ?_, fun other f h => .inl ?_⟩
      · rw [actionContext_ensureLoader, h]
      · rwa [loadedFactories_ensureLoader] at h
  | factory plugin =>
      have hcaches := caches_loadFactory plugins (s.ensureLoader plugins).1 plugin
      refine ⟨fun h => hcaches.context ?_, fun other f h => ?_⟩
      · rw [actionContext_ensureLoader, h]
      · rw [← loadedFactories_ensureLoader plugins s]
        exact hcaches.factories other f h

theorem RobotState.caches_executeAction (category : String) (description : D) (e : ActivityId) :
    Caches plugins s (s.executeAction plugins category description e).robot := by
  rcases s.executeAction_cases plugins category description e with
    ⟨-, s', m, hprepared, heq⟩ | ⟨-, s', plugin, factory, action, hprepared, -, -, heq⟩
  · rw [heq]
    exact caches_of_prepared plugins s hprepared
  · rw [heq]
    have hcaches := caches_of_prepared plugins s hprepared
    exact ⟨hcaches.context, hcaches.factories⟩

end

/-- An action that is stored was made by the factory of a plugin. -/
theorem RobotState.exists_of_executeAction {plugins : Plugins F D A} {category : String}
    {description : D} {e : ActivityId} {s : RobotState F A}
    (h : (s.executeAction plugins category description e).execution = none) :
    ∃ plugin factory action, s.Supplies plugins plugin factory ∧
      plugins.performAction factory category description e = .ok (some action) ∧
      (s.executeAction plugins category description e).robot.currentAction = some action := by
  rcases s.executeAction_cases plugins category description e with
    ⟨-, s', m, -, heq⟩ | ⟨-, s', plugin, factory, action, -, hsupplies, hperformed, heq⟩
  · rw [heq] at h
    cases h
  · exact ⟨plugin, factory, action, hsupplies, hperformed, by rw [heq]⟩

/-! ### The polling machine's view -/

/-- The pair `update_current_action` works on. -/
def RobotState.pair (s : RobotState F A) : Option A × Option ActivityId :=
  (s.currentAction, s.currentActionExecution)

section

variable (plugins : Plugins F D A) (s : RobotState F A)

theorem pair_ensureLoader : (s.ensureLoader plugins).1.pair = s.pair := by
  obtain ⟨loader, heq⟩ := RobotState.ensureLoader_fst plugins s
  rw [heq]
  rfl

theorem pair_loadFactory (plugin : String) : (s.loadFactory plugins plugin).1.pair = s.pair := by
  unfold RobotState.loadFactory
  split
  · rfl
  · split
    · rfl
    · rfl
    · simp only
      split <;> rfl

theorem pair_of_prepared {s' : RobotState F A} (h : s.Prepared plugins s') : s'.pair = s.pair := by
  cases h with
  | same => rfl
  | loader => exact pair_ensureLoader plugins s
  | factory plugin => exact (pair_loadFactory plugins _ plugin).trans (pair_ensureLoader plugins s)

/-- A call stores a pair of its own and keeps nothing, or keeps its execution and stores nothing. -/
theorem pair_executeAction (category : String) (description : D) (e : ActivityId) :
    let r := s.executeAction plugins category description e
    r.execution = none ∧ (∃ action, r.robot.pair = (some action, some e)) ∨
      r.execution = some e ∧ r.robot.pair = s.pair := by
  rcases s.executeAction_cases plugins category description e with
    ⟨-, s', m, hprepared, heq⟩ | ⟨-, s', plugin, factory, action, -, -, -, heq⟩
  · rw [heq]
    exact .inr ⟨rfl, pair_of_prepared plugins s hprepared⟩
  · rw [heq]
    exact .inl ⟨rfl, action, rfl⟩

end

/-- The polling machine stores what the robot stores. -/
structure Tracks (s : RobotState F A) (p : State) : Prop where
  action : p.currentAction.isSome = s.pair.1.isSome
  execution : p.currentActionExecution = s.pair.2

/-- `execute_action` does to the pair what the polling machine's step does, which is told whether
an action was made. -/
theorem Tracks.executeAction {s : RobotState F A} {p : State} (h : Tracks s p)
    (plugins : Plugins F D A) (category : String) (description : D) :
    let r := s.executeAction plugins category description p.nextActivity
    ∃ p', step p (.executeAction r.execution.isNone) = some p' ∧ Tracks r.robot p' := by
  intro r
  refine ⟨_, rfl, ?_⟩
  rcases pair_executeAction plugins s category description p.nextActivity with
    ⟨hnone, action, hpair⟩ | ⟨hsome, hpair⟩
  · simp only [r, hnone]
    exact ⟨by rw [hpair]; rfl, by rw [hpair]; rfl⟩
  · simp only [r, hsome]
    exact ⟨by rw [hpair]; exact h.action, by rw [hpair]; exact h.execution⟩

end EgbFleet.Actions
