import EgbFleet.Fleet.Roster
import EgbFleet.Support.Collect
import Mathlib.Data.Finset.Sort
import Mathlib.Data.String.Basic

/-!
# Fleet — the scan for robots

`RestRobotDiscovery::scan_for_robots_via_rest` asks the router for its routes.  The answer is a JSON
array; an entry names a robot by what precedes the first `/` of its key expression, if that matches
the pattern.  An entry without a key expression is passed over.

A key expression that is not a string raises, where it is converted, and the error is caught outside
the loop: the names found before are returned, and the entries after are not looked at.
`rest_scan_iff` says when that makes no difference.  Where it does, `discover_robots` makes no
attempt at a robot that is hidden (`robots_of_hidden`).
-/

namespace EgbFleet.Fleet

open Collect

/-- `nlohmann::json`, as it is parsed.  An object's members are in the order of their keys. -/
inductive Json where
  | null
  | boolean (value : Bool)
  | number (value : ℚ)
  | string (value : String)
  | array (items : List Json)
  | object (members : List (String × Json))

/-- The member of an object; `contains` asks whether there is one. -/
def Json.get? (key : String) : Json → Option Json
  | .object members => members.lookup key
  | _ => none

/-- What a loop over the value runs over. -/
def Json.items : Json → List Json
  | .null => []
  | .array items => items
  | .object members => members.map Prod.snd
  | value => [value]

/-- The conversion to `std::string`; an error is `nlohmann::json::type_error`. -/
def Json.toStdString : Json → Except Unit String
  | .string value => .ok value
  | _ => .error ()

/-- `key_expr.substr(0, slash_pos)`, if there is a slash. -/
def potentialName (keyExpr : String) : Option String :=
  if '/' ∈ keyExpr.toList then some (String.ofList (keyExpr.toList.takeWhile (· ≠ '/'))) else none

/-- The body of the loop, with the name it inserts into `discovered`, if it does.  `nameMatches` is
`std::regex_match` with the pattern. -/
def scanItem (nameMatches : String → Bool) (item : Json) : Except Unit (Option String) :=
  match (item.get? "value").bind (·.get? "zenoh_key_expr") with
  | none => .ok none
  | some value =>
      match value.toStdString with
      | .error e => .error e
      | .ok keyExpr => .ok ((potentialName keyExpr).filter nameMatches)

/-- What `curl` makes of the request. -/
inductive Response where
  | notInitialized
  | failed
  /-- The body, if `json::parse` accepts it. -/
  | answered (httpCode : ℤ) (data : Option Json)

/-- `scan_for_robots_via_rest`.  A pattern that does not compile raises `std::regex_error`. -/
def scanForRobotsViaRest (pattern : Option (String → Bool)) :
    Response → Except Unit (Finset String)
  | .notInitialized => .ok ∅
  | .failed => .ok ∅
  | .answered httpCode data =>
      if httpCode ≠ 200 then .ok ∅
      else
        match data with
        | none => .ok ∅
        | some data =>
            match pattern with
            | none => .error ()
            | some nameMatches => .ok (collect (scanItem nameMatches) ∅ data.items)

/-! ### What an entry says -/

/-- The entry has this key expression. -/
def Json.HasKeyExpr (item keyExpr : Json) : Prop :=
  ∃ value, item.get? "value" = some value ∧ value.get? "zenoh_key_expr" = some keyExpr

/-- The entry has a key expression that is not a string. -/
def Json.Malformed (item : Json) : Prop :=
  ∃ keyExpr, item.HasKeyExpr keyExpr ∧ ∀ s, keyExpr ≠ .string s

/-- The entry names a robot: its key expression starts with the name and a slash. -/
def Json.Names (nameMatches : String → Bool) (item : Json) (name : String) : Prop :=
  nameMatches name = true ∧ '/' ∉ name.toList ∧
    ∃ s rest, item.HasKeyExpr (.string s) ∧ s.toList = name.toList ++ '/' :: rest

theorem takeWhile_ne_slash {before : List Char} (h : '/' ∉ before) (rest : List Char) :
    (before ++ '/' :: rest).takeWhile (· ≠ '/') = before := by
  have hall : ∀ c ∈ before, decide (c ≠ '/') = true :=
    fun c hc => decide_eq_true (ne_of_mem_of_not_mem hc h)
  rw [List.takeWhile_append_of_pos hall, List.takeWhile_cons_of_neg (by simp), List.append_nil]

theorem potentialName_eq_some_iff {keyExpr name : String} :
    potentialName keyExpr = some name ↔
      '/' ∉ name.toList ∧ ∃ rest, keyExpr.toList = name.toList ++ '/' :: rest := by
  unfold potentialName
  constructor
  · intro h
    split at h
    · rename_i hslash
      obtain ⟨before, rest, hsplit, hbefore⟩ := List.eq_append_cons_of_mem hslash
      cases h
      rw [hsplit, takeWhile_ne_slash hbefore, String.toList_ofList]
      exact ⟨hbefore, rest, rfl⟩
    · cases h
  · rintro ⟨hname, rest, heq⟩
    rw [heq, if_pos (by simp), takeWhile_ne_slash hname, String.ofList_toList]

variable {nameMatches : String → Bool} {item : Json}

theorem Json.hasKeyExpr_iff {keyExpr : Json} :
    item.HasKeyExpr keyExpr ↔
      (item.get? "value").bind (·.get? "zenoh_key_expr") = some keyExpr := by
  rw [Option.bind_eq_some_iff]
  rfl

theorem raises_scanItem_iff (nameMatches : String → Bool) :
    Raises (scanItem nameMatches) item ↔ item.Malformed := by
  simp only [Raises, scanItem, Json.Malformed, Json.hasKeyExpr_iff]
  cases (item.get? "value").bind (·.get? "zenoh_key_expr") with
  | none => simp
  | some keyExpr => cases keyExpr <;> simp [Json.toStdString]

theorem yields_scanItem_iff {name : String} :
    Yields (scanItem nameMatches) item name ↔ item.Names nameMatches name := by
  simp only [Yields, scanItem, Json.Names, Json.hasKeyExpr_iff]
  cases (item.get? "value").bind (·.get? "zenoh_key_expr") with
  | none => simp
  | some keyExpr =>
      cases keyExpr with
      | string s =>
          simp [Json.toStdString, Option.filter_eq_some_iff, potentialName_eq_some_iff, and_comm]
      | null | boolean | number | array | object => simp [Json.toStdString]

/-- **The scan.**  Of an array of entries, it finds the names of all just if those named after the
first malformed entry are named before it too.  It finds the same in any order just if no entry is
malformed, or none names a robot. -/
theorem rest_scan_iff (nameMatches : String → Bool) (items : List Json) :
    ∃ discovered,
      scanForRobotsViaRest (some nameMatches) (.answered 200 (some (.array items))) =
        .ok discovered ∧
      ((∀ name, name ∈ discovered ↔ ∃ item ∈ items, item.Names nameMatches name) ↔
        ∀ before item after, items = before ++ item :: after →
          (∀ other ∈ before, ¬ other.Malformed) → item.Malformed →
          ∀ name, (∃ other ∈ after, other.Names nameMatches name) →
            ∃ other ∈ before, other.Names nameMatches name) ∧
      ((∀ items' : List Json, items'.Perm items →
          scanForRobotsViaRest (some nameMatches) (.answered 200 (some (.array items'))) =
            .ok discovered) ↔
        (∀ item ∈ items, ¬ item.Malformed) ∨
          ∀ item ∈ items, ∀ name, ¬ item.Names nameMatches name) := by
  have hscan (items' : List Json) :
      scanForRobotsViaRest (some nameMatches) (.answered 200 (some (.array items'))) =
        .ok (collect (scanItem nameMatches) ∅ items') := rfl
  refine ⟨_, hscan items, ?_, ?_⟩
  · simp only [← yields_scanItem_iff, ← raises_scanItem_iff nameMatches]
    exact collect_complete_iff
  · simp only [hscan, Except.ok.injEq, ← yields_scanItem_iff,
      ← raises_scanItem_iff nameMatches]
    exact collect_perm_iff

/-- An entry for a route, with this key expression. -/
def routeEntry (keyExpr : Json) : Json := .object [("value", .object [("zenoh_key_expr", keyExpr)])]

/-- A number where the first entry has its key expression hides the robot of the second. -/
theorem malformed_entry_hides :
    ¬ ∀ (nameMatches : String → Bool) (items : List Json),
      ∃ discovered,
        scanForRobotsViaRest (some nameMatches) (.answered 200 (some (.array items))) =
          .ok discovered ∧
        ∀ name, name ∈ discovered ↔ ∃ item ∈ items, item.Names nameMatches name := by
  intro h
  obtain ⟨discovered, hscan, hall⟩ := h (· == "robot_ab12")
    [routeEntry (.number 7), routeEntry (.string "robot_ab12/tf")]
  have hempty : discovered = ∅ := by
    cases hscan
    rfl
  have hnames : (routeEntry (.string "robot_ab12/tf")).Names (· == "robot_ab12") "robot_ab12" :=
    ⟨by simp, by decide, "robot_ab12/tf", "tf".toList, ⟨_, rfl, rfl⟩, by decide⟩
  rw [hempty] at hall
  exact Finset.notMem_empty _ ((hall "robot_ab12").mpr ⟨_, by simp, hnames⟩)

/-! ### The robots discovered -/

/-- The names found, in the order `discover_robots` goes through them. -/
def Scan.ofDiscovered (discovered : Finset String) (attempt : String → Attempt) : Scan where
  names := discovered.sort (· ≤ ·)
  sorted := discovered.sortedLT_sort.pairwise
  attempt := attempt

section

variable {S : Type} {f : FleetConfig S} {x : Frames.Externals}

theorem RestRobotDiscovery.robots_addDynamicRobot {robotName other : String}
    (hne : other ≠ robotName) (a : Attempt) (d : RestRobotDiscovery) (h : FleetHandle S) :
    (d.addDynamicRobot f x robotName a h).2.1.robots other = d.robots other := by
  rcases d.addDynamicRobot_cases (f := f) (x := x) robotName a h with
    ⟨-, e⟩ | ⟨-, handles, -, e | ⟨r, -, ⟨-, e⟩ | ⟨-, e⟩⟩⟩
  · rw [e]
  · rw [e]
  · rw [e]
  · rw [e]
    exact Function.update_of_ne hne _ _

/-- The loop only adds robots it goes through. -/
theorem RestRobotDiscovery.robots_discoverRobots {attempt : String → Attempt} {names : List String}
    {other : String} (hother : other ∉ names) (d : RestRobotDiscovery) (h : FleetHandle S) :
    (discoverRobots f x attempt names (d, h)).1.robots other = d.robots other := by
  induction names generalizing d h with
  | nil => rfl
  | cons robotName names ih =>
      obtain ⟨hne, hnames⟩ := not_or.mp (mt List.mem_cons.mpr hother)
      simp only [discoverRobots]
      split
      · rw [ih hnames, robots_addDynamicRobot hne]
      · exact ih hnames d h

/-- A robot that no entry before the first malformed one names is not added. -/
theorem robots_of_hidden {before after : List Json} {bad : Json} {name : String}
    (hbefore : ∀ other ∈ before, ¬ other.Malformed) (hbad : bad.Malformed)
    (hname : ∀ other ∈ before, ¬ other.Names nameMatches name) (attempt : String → Attempt)
    (d : RestRobotDiscovery) (h : FleetHandle S) :
    ∃ discovered,
      scanForRobotsViaRest (some nameMatches)
        (.answered 200 (some (.array (before ++ bad :: after)))) = .ok discovered ∧
      (RestRobotDiscovery.discoverRobots f x attempt
        (Scan.ofDiscovered discovered attempt).names (d, h)).1.robots name = d.robots name := by
  refine ⟨_, rfl, RestRobotDiscovery.robots_discoverRobots (fun hmem => ?_) d h⟩
  have hraises : ∀ other ∈ before, ¬ Raises (scanItem nameMatches) other :=
    fun other hmem => mt (raises_scanItem_iff nameMatches).mp (hbefore other hmem)
  have hfound := (Finset.mem_sort _).mp hmem
  rw [Json.items, collect_append_raises hraises ((raises_scanItem_iff nameMatches).mpr hbad)]
    at hfound
  obtain ⟨other, hother, hyields⟩ := yields_of_mem_collect hfound
  exact hname other hother (yields_scanItem_iff.mp hyields)

end

end EgbFleet.Fleet
