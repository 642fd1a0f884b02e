import EgbFleet.Fleet.Schedule
import EgbFleet.Spawner.FleetConfig
import EgbFleet.Support.Results

/-!
# Fleet — the configuration an adapter is started with

The spawner fills one template in for every fleet, and starts the fleet's adapter with the file.
The adapter reads from it which robots there are, whether to look for others, and the pattern that
these are known by.  PyYAML writes the file and yaml-cpp reads it: a scalar is read as the text it
is written as.

`fleets_apart`: adapters started with patterns that no name matches both of never add the same
robot to their fleets, but for robots that the template itself lists.
-/

noncomputable section

namespace EgbFleet

open Document (Shape)

/-! ### Reading -/

namespace Spawner.Yaml

/-- What a node is. -/
abbrev Node := Shape Scalar Scalar

/-- `node[key]`, for each key of a path; `none` is a node that is not defined, and an error is
`YAML::BadSubscript`. -/
def subscript : List String → Yaml → Except Unit (Option Node)
  | [], node => .ok (some node.shape)
  | _ :: _, .leaf .none => .ok none
  | _ :: _, .leaf (.atom _) | _ :: _, .leaf (.str _) => .error ()
  | _ :: _, .list _ => .ok none
  | key :: path, .table entries => (entries.lookup (.str key)).elim (.ok none) (subscript path)

/-- `node.as<std::string>()`; an error is `YAML::BadConversion`. -/
def asString : Node → Except Unit String
  | .leaf .none => .ok "null"
  | .leaf (.atom text) | .leaf (.str text) => .ok text
  | .list _ | .table => .error ()

/-- `node.as<bool>()` and `node.as<double>()`, by what they make of a text. -/
def asScalar {β : Type} (decode : String → Option β) : Node → Except Unit β
  | .leaf (.atom text) | .leaf (.str text) => (decode text).elim (.error ()) .ok
  | .leaf .none | .list _ | .table => .error ()

/-- The value, if the path leads to a node that has one, and what there is otherwise. -/
def readOr {β : Type} (value : β) (read : Node → Except Unit β) (path : List String)
    (config : Yaml) : Except Unit β := do
  match ← config.subscript path with
  | none => return value
  | some node => read node

theorem readOr_of_subscript {β : Type} {value : β} {read : Node → Except Unit β}
    {path : List String} {config : Yaml} {node : Node}
    (h : config.subscript path = .ok (some node)) : config.readOr value read path = read node := by
  rw [readOr, h]
  rfl

/-- What `subscript` reads, it reads from what is on the way. -/
theorem subscript_congr {config config' : Yaml} {path : List String}
    (h : ∀ q, q <+: path.map Scalar.str → config.shape? q = config'.shape? q) :
    config.subscript path = config'.subscript path := by
  induction path generalizing config config' with
  | nil => exact congrArg Except.ok (h [] List.nil_prefix)
  | cons key path ih =>
      have hroot : config.shape = config'.shape := Option.some.inj (h [] List.nil_prefix)
      cases config with
      | leaf | list =>
          cases config' <;> cases hroot
          rfl
      | table entries =>
          cases config' with
          | leaf | list => cases hroot
          | table entries' =>
              have hbelow (q : List Scalar) (hq : q <+: path.map Scalar.str) :
                  (entries.lookup (.str key)).bind (Document.shape? q) =
                    (entries'.lookup (.str key)).bind (Document.shape? q) := by
                have hkey := h (.str key :: q) (by simpa using hq)
                rwa [Document.shape?_cons, Document.shape?_cons] at hkey
              have hnil := hbelow [] List.nil_prefix
              unfold subscript
              cases hy : entries.lookup (.str key) with
              | none =>
                  cases hy' : entries'.lookup (.str key) with
                  | none => rfl
                  | some y' =>
                      rw [hy, hy'] at hnil
                      cases hnil
              | some y =>
                  cases hy' : entries'.lookup (.str key) with
                  | none =>
                      rw [hy, hy'] at hnil
                      cases hnil
                  | some y' =>
                      refine ih fun q hq => ?_
                      have hq := hbelow q hq
                      rwa [hy, hy', Option.bind_some, Option.bind_some] at hq

/-- What a path leads to is what is read. -/
theorem subscript_eq_some_iff {config : Yaml} {path : List String} {node : Node} :
    config.subscript path = .ok (some node) ↔ config.shape? (path.map Scalar.str) = some node := by
  induction path generalizing config with
  | nil => simp [subscript, Document.shape?, Document.get?]
  | cons key path ih =>
      cases config with
      | leaf a => cases a <;> simp [subscript, Document.shape?, Document.get?]
      | list items => simp [subscript, Document.shape?, Document.get?]
      | table entries =>
          rw [List.map_cons, Document.shape?_cons, subscript]
          cases entries.lookup (.str key) with
          | none => simp
          | some y => exact ih

theorem hasKey_of_subscript {config : Yaml} {key : String} {node : Node}
    (h : config.subscript ["rmf_fleet", key] = .ok (some node)) : config.hasKey key = .ok true := by
  have hshape := subscript_eq_some_iff.mp h
  cases config with
  | leaf | list => cases hshape
  | table entries =>
      rw [List.map_cons, Document.shape?_cons] at hshape
      obtain ⟨y, hy, hshape⟩ := Option.bind_eq_some_iff.mp hshape
      cases y with
      | leaf | list => cases hshape
      | table fleet =>
          rw [List.map_cons, Document.shape?_cons] at hshape
          obtain ⟨z, hz, -⟩ := Option.bind_eq_some_iff.mp hshape
          rw [hasKey_table hy, hz]
          rfl

end Spawner.Yaml

namespace Fleet

open Frames (Externals)
open Spawner (Yaml FleetAdapterParams Replacement)

/-- What yaml-cpp makes of the text of a scalar, and `std::regex` of a pattern. -/
structure Conversions where
  asBool : String → Option Bool
  asDouble : String → Option ℚ
  regex : String → Option (String → Bool)

/-! ### The settings -/

/-- The entries that `initialize_static_robots` goes through.  What has no entries, or entries
without names, adds no robot. -/
def staticRobots (config : Yaml) : Except Unit (List Yaml) := do
  match ← config.subscript ["rmf_fleet", "robots"] with
  | some (.list items) => return items
  | some .table | some (.leaf _) | none => return []

/-- The name in an entry, if it has one. -/
def robotName (entry : Yaml) : Except Unit (Option String) := do
  match ← entry.subscript ["name"] with
  | none => return none
  | some node => return some (← Yaml.asString node)

/-- The constructor of `RestRobotDiscovery`. -/
def DiscoveryConfig.ofConfig (v : Conversions) (config : Yaml) : Except Unit DiscoveryConfig := do
  let robotNamePattern ←
    config.readOr "" Yaml.asString ["rmf_fleet", "dynamic_discovery", "robot_name_pattern"]
  let discoveryFrequency ← config.readOr (Binary64.nearest (1 / 10)) (Yaml.asScalar v.asDouble)
    ["rmf_fleet", "dynamic_discovery", "discovery_frequency"]
  let _restEndpoint ←
    config.readOr "" Yaml.asString ["rmf_fleet", "dynamic_discovery", "rest_endpoint"]
  return ⟨v.regex robotNamePattern, discoveryFrequency⟩

/-- `initialize_discovery`. -/
def initializeDiscovery (v : Conversions) (config : Yaml) :
    Except Unit (Option DiscoveryConfig) := do
  match ← config.subscript ["rmf_fleet", "dynamic_discovery"] with
  | none => return none
  | some _ =>
      match ← config.subscript ["rmf_fleet", "dynamic_discovery", "enabled"] with
      | none => return none
      | some enabled =>
          if ← Yaml.asScalar v.asBool enabled then
            match DiscoveryConfig.ofConfig v config with
            | .ok c => return some c
            | .error () => return none
          else return none

/-! ### The robots -/

variable {S : Type}

/-- The configuration lists the robot. -/
def ListsRobot (config : Yaml) (name : String) : Prop :=
  ∃ entries, staticRobots config = .ok entries ∧
    ∃ entry ∈ entries, robotName entry = .ok (some name)

/-- The adapter looks for robots, and the robot's name matches. -/
def LooksFor (v : Conversions) (config : Yaml) (name : String) : Prop :=
  ∃ c, initializeDiscovery v config = .ok (some c) ∧
    ∃ nameMatches, c.robotNamePattern = some nameMatches ∧ nameMatches name = true

/-- The adapter does what its configuration says. -/
def Configured (v : Conversions) (config : Yaml) (c : DiscoveryConfig) (_ : Schedule S) :
    ScheduleAction → Prop
  | .static name _ =>
      ∃ entries, staticRobots config = .ok entries ∧ ∃ entry ∈ entries, robotName entry = .ok name
  | .start discovery => initializeDiscovery v config = .ok (if discovery then some c else none)
  | .tick _ _ _ | .shutdown => True

/-- A name that a scan finds matches. -/
theorem matches_of_mem_scan {pattern : Option (String → Bool)} {response : Response}
    {discovered : Finset String} (h : scanForRobotsViaRest pattern response = .ok discovered)
    {name : String} (hname : name ∈ discovered) :
    ∃ nameMatches, pattern = some nameMatches ∧ nameMatches name = true := by
  cases response with
  | notInitialized | failed =>
      cases h
      exact absurd hname (Finset.notMem_empty _)
  | answered httpCode data =>
      simp only [scanForRobotsViaRest] at h
      split at h
      · cases h
        exact absurd hname (Finset.notMem_empty _)
      · cases data with
        | none =>
            cases h
            exact absurd hname (Finset.notMem_empty _)
        | some data =>
            cases pattern with
            | none => cases h
            | some nameMatches =>
                cases h
                obtain ⟨item, -, hyields⟩ := Collect.yields_of_mem_collect hname
                exact ⟨nameMatches, rfl, (yields_scanItem_iff.mp hyields).1⟩

section

variable {f : FleetConfig S} {x : Externals} {c : DiscoveryConfig} {v : Conversions} {config : Yaml}

/-- An attempt passes its own name to `add_robot`, if any. -/
theorem RestRobotDiscovery.mem_calls_addDynamicRobot {robotName : String} {a : Attempt}
    {d : RestRobotDiscovery} {h : FleetHandle S} {call : AddRobot S}
    (hcall : call ∈ (d.addDynamicRobot f x robotName a h).2.2.calls) :
    call ∈ h.calls ∨ call.robotName = robotName := by
  rcases d.addDynamicRobot_cases (f := f) (x := x) robotName a h with
    ⟨-, e⟩ | ⟨-, handles, -, e | ⟨r, -, ⟨-, e⟩ | ⟨-, e⟩⟩⟩ <;> rw [e] at hcall
  · exact .inl hcall
  · exact .inl hcall
  · exact (List.mem_cons.mp hcall).symm.imp_right (congrArg AddRobot.robotName)
  · exact (List.mem_cons.mp hcall).symm.imp_right (congrArg AddRobot.robotName)

theorem RestRobotDiscovery.mem_calls_discoverRobots {attempt : String → Attempt}
    {names : List String} {d : RestRobotDiscovery} {h : FleetHandle S} {call : AddRobot S}
    (hcall : call ∈ (discoverRobots f x attempt names (d, h)).2.calls) :
    call ∈ h.calls ∨ call.robotName ∈ names := by
  induction names generalizing d h with
  | nil => exact .inl hcall
  | cons robotName names ih =>
      simp only [discoverRobots] at hcall
      split at hcall
      · rcases ih hcall with hcall | hname
        · refine (mem_calls_addDynamicRobot hcall).imp_right fun hname => ?_
          exact hname ▸ List.mem_cons_self
        · exact .inr (List.mem_cons_of_mem _ hname)
      · exact (ih hcall).imp_right (List.mem_cons_of_mem _)

/-- A tick passes names that a scan has found. -/
theorem FleetAdapter.mem_calls_discover {scan : Option Scan} {s : FleetAdapter S}
    {call : AddRobot S} (hcall : call ∈ (s.discover f x scan).fleetHandle.calls) :
    call ∈ s.fleetHandle.calls ∨ ∃ found, scan = some found ∧ call.robotName ∈ found.names := by
  unfold discover at hcall
  split at hcall
  · exact .inl hcall
  · cases scan with
    | none => exact .inl hcall
    | some found =>
        exact (RestRobotDiscovery.mem_calls_discoverRobots hcall).imp_right
          fun hname => ⟨found, rfl, hname⟩

/-- Where the robots come from that are passed to `add_robot`. -/
structure Sourced (v : Conversions) (config : Yaml) (c : DiscoveryConfig) (s : Schedule S) :
    Prop where
  discovery : s.fleet.discovery ≠ none → initializeDiscovery v config = .ok (some c)
  calls : ∀ call ∈ s.fleet.fleetHandle.calls,
    ListsRobot config call.robotName ∨ LooksFor v config call.robotName

theorem Sourced.init : Sourced v config c (schedule f x c).init where
  discovery := fun h => absurd rfl h
  calls := fun _ hcall => absurd hcall List.not_mem_nil

/-- A tick's discovery, whether or not it scans. -/
theorem Sourced.discover {s : Schedule S} (hs : Sourced v config c s)
    (hdiscovery : s.fleet.discovery ≠ none) (scan : Option Scan)
    (hscan : ∀ found, scan = some found → ∀ name ∈ found.names,
      ∃ nameMatches, c.robotNamePattern = some nameMatches ∧ nameMatches name = true)
    {t : Schedule S} (ht : t.fleet = s.fleet.discover f x scan) : Sourced v config c t where
  discovery := fun _ => hs.discovery hdiscovery
  calls := by
    intro call hcall
    rw [ht] at hcall
    rcases FleetAdapter.mem_calls_discover hcall with hcall | ⟨found, hfound, hname⟩
    · exact hs.calls call hcall
    · exact .inr ⟨c, hs.discovery hdiscovery, hscan found hfound _ hname⟩

theorem Sourced.addRobot {fleet : FleetAdapter S} {s : Schedule S} (hs : Sourced v config c s)
    {name : String} (hname : ListsRobot config name) (a : Attempt)
    (hfleet : fleet = s.fleet.initializeStatic f name a) :
    Sourced v config c { s with fleet } := by
  subst hfleet
  have hcalls (r : Registration S) : ∀ call ∈ (s.fleet.fleetHandle.addRobot name r).calls,
      ListsRobot config call.robotName ∨ LooksFor v config call.robotName := by
    intro call hcall
    rcases List.mem_cons.mp hcall with rfl | hcall
    · exact .inl hname
    · exact hs.calls call hcall
  unfold FleetAdapter.initializeStatic
  split
  · exact ⟨hs.discovery, hs.calls⟩
  · rename_i r _
    dsimp only
    split <;> exact ⟨hs.discovery, hcalls r⟩

theorem Sourced.step {s s' : Schedule S} {a : ScheduleAction} (ha : Configured v config c s a)
    (h : s.Moves f x c a s') (hs : Sourced v config c s) : Sourced v config c s' := by
  cases h with
  | @fleet a b fleet same step =>
      cases FleetAdapter.step_moves step with
      | nameless => exact ⟨hs.discovery, hs.calls⟩
      | static robotName attempt initializing =>
          cases a <;> cases same
          exact hs.addRobot ha attempt rfl
      | start discovery initializing =>
          cases a <;> cases same
          refine ⟨fun hstarted => ?_, hs.calls⟩
          cases discovery with
          | false => exact absurd rfl hstarted
          | true => exact ha
      | tick => cases a <;> cases same
      | shutdown => exact ⟨fun h => absurd rfl h, hs.calls⟩
  | noDiscovery => exact hs
  | scans now response attempt running found due =>
      have hdiscovery : s.fleet.discovery ≠ none := by simp [found]
      cases hscan : scanForRobotsViaRest c.robotNamePattern response with
      | error =>
          -- the tick ends here
          exact ⟨fun _ => hs.discovery hdiscovery, by simpa [Schedule.scan, hscan] using hs.calls⟩
      | ok discovered =>
          refine hs.discover (f := f) (x := x) hdiscovery
            (some (Scan.ofDiscovered discovered attempt)) (fun found hfound name hname => ?_)
            (by simp only [Schedule.scan, hscan])
          cases hfound
          exact matches_of_mem_scan hscan ((Finset.mem_sort _).mp hname)
  | waits now response attempt running found notDue =>
      exact hs.discover (f := f) (x := x) (by simp [found]) none (by simp) rfl

theorem Sourced.reach {s : Schedule S} (h : (schedule f x c).Reach (Configured v config c) s) :
    Sourced v config c s :=
  h.invariant .init fun _ _ _ ha hstep hs => hs.step ha (Schedule.step_moves hstep)

end

/-! ### The requests -/

/-- The pattern that a request asks for. -/
def namePattern (p : FleetAdapterParams) : Replacement :=
  ⟨p.robotNamePattern != "", "dynamic_discovery", ["robot_name_pattern"], p.robotNamePattern⟩

section

variable {v : Conversions} {c : DiscoveryConfig} {p : FleetAdapterParams} {template config : Yaml}

theorem initializeDiscovery_eq_some (h : initializeDiscovery v config = .ok (some c)) :
    (∃ node, config.subscript ["rmf_fleet", "dynamic_discovery"] = .ok (some node)) ∧
      DiscoveryConfig.ofConfig v config = .ok c := by
  obtain ⟨node, hnode, h⟩ := Except.bind_eq_ok.mp h
  cases node with
  | none => cases h
  | some node =>
      refine ⟨⟨node, hnode⟩, ?_⟩
      obtain ⟨enabled, -, h⟩ := Except.bind_eq_ok.mp h
      cases enabled with
      | none => cases h
      | some enabled =>
          obtain ⟨enabled, -, h⟩ := Except.bind_eq_ok.mp h
          cases enabled with
          | false => cases h
          | true =>
              cases hc : DiscoveryConfig.ofConfig v config with
              | error =>
                  rw [if_pos rfl, hc] at h
                  cases h
              | ok c' =>
                  rw [if_pos rfl, hc] at h
                  cases h
                  rfl

theorem DiscoveryConfig.ofConfig_pattern (h : ofConfig v config = .ok c) :
    ∃ text, config.readOr "" Yaml.asString
        ["rmf_fleet", "dynamic_discovery", "robot_name_pattern"] = .ok text ∧
      c.robotNamePattern = v.regex text := by
  obtain ⟨text, htext, h⟩ := Except.bind_eq_ok.mp h
  obtain ⟨frequency, -, h⟩ := Except.bind_eq_ok.mp h
  obtain ⟨restEndpoint, -, h⟩ := Except.bind_eq_ok.mp h
  cases h
  exact ⟨text, htext, rfl⟩

theorem shape?_filled (hp : p.createFleetConfig template = .ok config)
    (path : List Spawner.Scalar) :
    config.shape? path = Spawner.filled p.replacements template path := by
  have hfills := p.createFleetConfig_fills template
  rw [hp] at hfills
  exact hfills.2 path

/-- What is away from what a request asks for is read as the template has it. -/
theorem subscript_filled (hp : p.createFleetConfig template = .ok config) {path : List String}
    (haway : ∀ r ∈ p.replacements, ¬ r.target <+: path.map .str) :
    config.subscript path = template.subscript path := by
  refine Yaml.subscript_congr fun q hq => (shape?_filled hp q).trans ?_
  exact Spawner.filled_of_forall (fun r hr hunder => haway r hr (hunder.trans hq)) template

/-- What a request asks for is read, where the template has its key. -/
theorem subscript_target (hp : p.createFleetConfig template = .ok config) {r : Replacement}
    (hr : r ∈ p.replacements) (happlies : r.Applies template) :
    config.subscript ("rmf_fleet" :: r.key :: r.path) = .ok (some (.leaf (.str r.value))) := by
  refine Yaml.subscript_eq_some_iff.mpr ((shape?_filled hp r.target).trans ?_)
  exact Spawner.filled_target p.apart_replacements hr happlies

theorem staticRobots_filled (hp : p.createFleetConfig template = .ok config) :
    staticRobots config = staticRobots template := by
  rw [staticRobots, subscript_filled hp, staticRobots]
  simp [FleetAdapterParams.replacements, Replacement.target]

/-- The pattern that is asked for is the pattern that discovery has. -/
theorem pattern_of_asked (hp : p.createFleetConfig template = .ok config)
    (asked : p.robotNamePattern ≠ "") (hc : initializeDiscovery v config = .ok (some c)) :
    c.robotNamePattern = v.regex p.robotNamePattern := by
  obtain ⟨⟨node, hnode⟩, hofConfig⟩ := initializeDiscovery_eq_some hc
  obtain ⟨text, htext, hpattern⟩ := DiscoveryConfig.ofConfig_pattern hofConfig
  have happlies : (namePattern p).Applies template := by
    rw [subscript_filled hp] at hnode
    · exact ⟨bne_iff_ne.mpr asked, Yaml.hasKey_of_subscript hnode⟩
    · simp [FleetAdapterParams.replacements, Replacement.target]
  have hread := subscript_target hp (r := namePattern p)
    (by simp [FleetAdapterParams.replacements, namePattern]) happlies
  cases htext.symm.trans (Yaml.readOr_of_subscript hread)
  exact hpattern

/-- **No robot is in two fleets.**  Two adapters are started with what the spawner makes of one
template, for patterns that no name matches both of.  A robot that both add to their fleets is one
that the template lists. -/
theorem fleets_apart {q : FleetAdapterParams} {config' : Yaml}
    (hp : p.createFleetConfig template = .ok config)
    (hq : q.createFleetConfig template = .ok config')
    (askedp : p.robotNamePattern ≠ "") (askedq : q.robotNamePattern ≠ "")
    (hapart : ∀ m m', v.regex p.robotNamePattern = some m → v.regex q.robotNamePattern = some m' →
      ∀ name, ¬ (m name = true ∧ m' name = true))
    {S : Type} {f g : FleetConfig S} {x y : Externals} {c' : DiscoveryConfig} {s t : Schedule S}
    (hs : (schedule f x c).Reach (Configured v config c) s)
    (ht : (schedule g y c').Reach (Configured v config' c') t) {call call' : AddRobot S}
    (hcall : call ∈ s.fleet.fleetHandle.calls) (hcall' : call' ∈ t.fleet.fleetHandle.calls)
    (same : call.robotName = call'.robotName) : ListsRobot template call.robotName := by
  have hsourced := Sourced.reach hs
  have hsourced' := Sourced.reach ht
  rcases hsourced.calls call hcall with hlists | ⟨d, hd, m, hm, hname⟩
  · rwa [ListsRobot, staticRobots_filled hp] at hlists
  rcases hsourced'.calls call' hcall' with hlists | ⟨d', hd', m', hm', hname'⟩
  · rwa [same, ListsRobot, ← staticRobots_filled hq]
  rw [pattern_of_asked hp askedp hd] at hm
  rw [pattern_of_asked hq askedq hd'] at hm'
  exact absurd ⟨hname, same ▸ hname'⟩ (hapart m m' hm hm' call.robotName)

end

/-- A template that lists a robot, and has others looked for. -/
def oneRobot : Yaml :=
  .table [(.str "rmf_fleet", .table [(.str "name", .leaf (.str "fleet")),
    (.str "dynamic_discovery", .table [(.str "enabled", .leaf (.atom "true"))]),
    (.str "robots", .list [.table [(.str "name", .leaf (.str "robot_1"))]])])]

/-- A fleet that has robots of one name looked for. -/
def lookingFor (fleetName robotNamePattern : String) : FleetAdapterParams where
  fleetName := fleetName
  chargers := []
  robotNamePattern := robotNamePattern
  initialMap := ""

/-- Patterns are names. -/
def verbatim : Conversions where
  asBool := fun text => if text = "true" then some true else none
  asDouble := fun _ => none
  regex := fun robotNamePattern => some (· == robotNamePattern)

/-- The robot that the template lists is added. -/
theorem exists_reach_lists {p : FleetAdapterParams} {config : Yaml}
    (hp : p.createFleetConfig oneRobot = .ok config) :
    ∃ s call, (everyTwo ⟨0, 1, (1, 0), one_pos⟩).Reach
        (Configured verbatim config everyTwoSeconds) s ∧
      call ∈ s.fleet.fleetHandle.calls ∧ call.robotName = "robot_1" := by
  refine ⟨_, _, Lts.Reach.init.step (a := .static (some "robot_1") smooth) ?_ rfl,
    List.mem_cons_self, rfl⟩
  exact ⟨_, (staticRobots_filled hp).trans rfl, _, List.mem_cons_self, rfl⟩

theorem fleets_apart_oneRobot :
    ∃ config config' s t call call',
      (lookingFor "a" "robot_a").createFleetConfig oneRobot = .ok config ∧
      (lookingFor "b" "robot_b").createFleetConfig oneRobot = .ok config' ∧
      (everyTwo ⟨0, 1, (1, 0), one_pos⟩).Reach (Configured verbatim config everyTwoSeconds) s ∧
      (everyTwo ⟨0, 1, (1, 0), one_pos⟩).Reach (Configured verbatim config' everyTwoSeconds) t ∧
      call ∈ s.fleet.fleetHandle.calls ∧ call' ∈ t.fleet.fleetHandle.calls ∧
      call.robotName = call'.robotName ∧ ListsRobot oneRobot call.robotName := by
  obtain ⟨config, hp⟩ : ∃ config,
      (lookingFor "a" "robot_a").createFleetConfig oneRobot = .ok config := ⟨_, rfl⟩
  obtain ⟨config', hq⟩ : ∃ config,
      (lookingFor "b" "robot_b").createFleetConfig oneRobot = .ok config := ⟨_, rfl⟩
  obtain ⟨s, call, hs, hcall, hname⟩ := exists_reach_lists hp
  obtain ⟨t, call', ht, hcall', hname'⟩ := exists_reach_lists hq
  have same := hname.trans hname'.symm
  refine ⟨config, config', s, t, call, call', hp, hq, hs, ht, hcall, hcall', same,
    fleets_apart hp hq (by decide) (by decide) ?_ hs ht hcall hcall' same⟩
  rintro _ _ ⟨⟩ ⟨⟩ name ⟨hm, hm'⟩
  exact absurd ((eq_of_beq hm).symm.trans (eq_of_beq hm')) (by decide)

end Fleet

end EgbFleet

end
