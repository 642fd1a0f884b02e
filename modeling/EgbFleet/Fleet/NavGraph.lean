import EgbFleet.Support.Results
import Mathlib.Data.Int.Notation
import Mathlib.Data.List.Basic
import Mathlib.Logic.Function.Basic

/-!
# Fleet — fetching the navigation graph

`initialize_fleet` reads the traits of the fleet's vehicles from the configuration, asks the map
editor for the navigation graph, and has RMF's `parse_graph` read it, with the traits, from a file
that exists in memory only.  `http_get` collects what `curl` passes on piece by piece;
`parse_graph_text` writes the text to the file however much of it each call of `write` takes, and
closes the file on every way out.

`navGraph_loaded_iff`: a graph is loaded just if the configuration gives the traits and names a
graph, the editor answers with its text, and the file takes the whole text; it is what `parse_graph`
makes of the text as it was sent.  Whatever goes wrong, the open files are afterwards those there
were before.

What `as<double>` reads is of a type `D`, since nothing is done with it here.
-/

namespace EgbFleet.Fleet

variable {Γ D : Type}

/-! ### The request -/

/-- What `curl` makes of a request: the pieces of the body, in the order it passes them to
`curl_append`, the text of its error, if there is one, and the response code. -/
structure Transfer where
  pieces : List (List UInt8)
  error : Option String
  code : ℤ

def curlAppend (body piece : List UInt8) : List UInt8 := body ++ piece

/-- `http_get`; there is no transfer where `curl_easy_init` fails. -/
def httpGet : Option Transfer → Except String (List UInt8)
  | none => .error "curl_easy_init failed"
  | some t =>
      let body := t.pieces.foldl curlAppend []
      match t.error with
      | some e => .error ("nav graph GET failed: " ++ e)
      | none =>
          if t.code ≠ 200 then .error ("nav graph GET returned HTTP " ++ toString t.code)
          else .ok body

/-! ### The file -/

/-- A file descriptor. -/
abbrev Fd := ℕ

/-- What the open files hold. -/
abbrev OpenFiles := Fd → Option (List UInt8)

/-- How the system calls turn out. -/
structure System where
  /-- `memfd_create` returns a descriptor that is not in use, or fails. -/
  memfdCreate : (files : OpenFiles) → Option { fd : Fd // files fd = none }
  /-- How many of so many bytes call number `k` of `write` takes; `none` where it fails. -/
  write : ℕ → (remaining : ℕ) → Option (Fin (remaining + 1))

/-- `close`. -/
def close (fd : Fd) (files : OpenFiles) : OpenFiles := Function.update files fd none

/-- `fd` holds these bytes too. -/
def appendTo (fd : Fd) (bytes : List UInt8) (files : OpenFiles) : OpenFiles :=
  Function.update files fd ((files fd).map (· ++ bytes))

/-- The loop of `parse_graph_text`, from call number `k` of `write` on; `false` where a call takes
nothing. -/
def writeText (y : System) (fd : Fd) : ℕ → List UInt8 → OpenFiles → Bool × OpenFiles
  | _, [], files => (true, files)
  | k, b :: p, files =>
      match y.write k (b :: p).length with
      | none => (false, files)
      | some n =>
          if n.val = 0 then (false, files)
          else writeText y fd (k + 1) ((b :: p).drop n) (appendTo fd ((b :: p).take n) files)
termination_by _ p _ => p.length
decreasing_by
  rw [List.length_drop]
  exact Nat.sub_lt (Nat.succ_pos _) (Nat.pos_of_ne_zero ‹_›)

/-- `parse_graph_text`, with `parse_graph` reading what the file holds by its traits, and the files
open afterwards. -/
def parseGraphText (y : System) (parseGraph : List UInt8 → Except String Γ) (yaml : List UInt8)
    (files : OpenFiles) : Except String Γ × OpenFiles :=
  match y.memfdCreate files with
  | none => (.error "memfd_create failed", files)
  | some ⟨fd, _⟩ =>
      let (written, files) := writeText y fd 0 yaml (Function.update files fd (some []))
      if written then (parseGraph ((files fd).getD []), close fd files)
      else (.error "failed writing nav graph to memfd", close fd files)

/-! ### The configuration -/

/-- What the constructor reads of `rmf_fleet`; `none` where there is no such key. -/
structure NavGraphConfig where
  navGraphId : Option String
  navGraphUrl : Option String
  buildingId : Option String

/-- The address of the graph, if the configuration has the editor's and a building. -/
def NavGraphConfig.url (c : NavGraphConfig) : Option String :=
  let navGraphUrl := c.navGraphUrl.getD ""
  let buildingId := c.buildingId.getD ""
  if navGraphUrl = "" ∨ buildingId = "" then none
  else some (navGraphUrl ++ "/buildings/" ++ buildingId ++ "/nav_graph/" ++ c.navGraphId.getD "0")

/-- What `initialize_fleet` reads of `rmf_fleet` first; an error is what yaml-cpp throws where there
is no such number, or a `reversible` that is none of its words for true and false. -/
structure TraitsConfig (D : Type) where
  linearVelocity : Except String D
  linearAccel : Except String D
  angularVelocity : Except String D
  angularAccel : Except String D
  footprintRadius : Except String D
  vicinityRadius : Except String D
  reversible : Option (Except String Bool)

/-- `rmf_traffic::agv::VehicleTraits`, of a vehicle that is a circle. -/
structure VehicleTraits (D : Type) where
  linearVelocity : D
  linearAccel : D
  angularVelocity : D
  angularAccel : D
  footprintRadius : D
  vicinityRadius : D
  reversible : Bool

def TraitsConfig.traits (c : TraitsConfig D) : Except String (VehicleTraits D) := do
  let linearVelocity ← c.linearVelocity
  let linearAccel ← c.linearAccel
  let angularVelocity ← c.angularVelocity
  let angularAccel ← c.angularAccel
  let footprintRadius ← c.footprintRadius
  let vicinityRadius ← c.vicinityRadius
  let reversible ← c.reversible.getD (.ok true)
  return { linearVelocity, linearAccel, angularVelocity, angularAccel, footprintRadius,
           vicinityRadius, reversible }

/-- `initialize_fleet`, as far as the graph, where `curl` answers a request as `get` does. -/
def loadNavGraph (y : System) (parseGraph : VehicleTraits D → List UInt8 → Except String Γ)
    (get : String → Option Transfer) (t : TraitsConfig D) (c : NavGraphConfig)
    (files : OpenFiles) : Except String Γ × OpenFiles :=
  match t.traits with
  | .error e => (.error e, files)
  | .ok traits =>
      match c.url with
      | none => (.error "rmf_fleet.nav_graph_url and rmf_fleet.building_id must be set", files)
      | some url =>
          match httpGet (get url) with
          | .error e => (.error e, files)
          | .ok yaml => parseGraphText y (parseGraph traits) yaml files

/-! ### Writing -/

/-- From call number `k` on, the calls of `write` take these pieces, one after another. -/
def System.Takes (y : System) : ℕ → List (List UInt8) → Prop
  | _, [] => True
  | k, piece :: pieces =>
      piece ≠ [] ∧ (y.write k (piece ++ pieces.flatten).length).map Fin.val = some piece.length ∧
        y.Takes (k + 1) pieces

/-- The file takes the whole text, in some pieces. -/
def System.Stores (y : System) (files : OpenFiles) (text : List UInt8) : Prop :=
  y.memfdCreate files ≠ none ∧ ∃ pieces, pieces.flatten = text ∧ y.Takes 0 pieces

section

variable {y : System} {fd other : Fd} {k : ℕ} {p : List UInt8} {files : OpenFiles}

theorem appendTo_other (h : other ≠ fd) (bytes : List UInt8) (files : OpenFiles) :
    appendTo fd bytes files other = files other :=
  Function.update_of_ne h _ _

theorem appendTo_self (bytes : List UInt8) (files : OpenFiles) :
    appendTo fd bytes files fd = (files fd).map (· ++ bytes) :=
  Function.update_self fd _ _

/-- No other file is touched. -/
theorem writeText_other (h : other ≠ fd) (y : System) (k : ℕ) (p : List UInt8)
    (files : OpenFiles) : (writeText y fd k p files).2 other = files other := by
  fun_induction writeText y fd k p files with
  | case1 | case2 | case3 => rfl
  | case4 k files b p n hwrite hn ih => rw [ih, appendTo_other h]

/-- Where the loop ends, the file holds the bytes it was given. -/
theorem writeText_self (h : (writeText y fd k p files).1 = true) :
    (writeText y fd k p files).2 fd = (files fd).map (· ++ p) := by
  fun_induction writeText y fd k p files with
  | case1 k files => simp
  | case2 | case3 => cases h
  | case4 k files b p n hwrite hn ih =>
      rw [ih h, appendTo_self, Option.map_map]
      congr 1
      funext content
      simp only [Function.comp_apply, List.append_assoc, List.take_append_drop]

/-- The bytes that are left are taken in pieces, of which the first is as long as the next call
says. -/
theorem System.takes_iff {b : UInt8} :
    (∃ pieces, pieces.flatten = b :: p ∧ y.Takes k pieces) ↔
      ∃ n, y.write k (b :: p).length = some n ∧ n.val ≠ 0 ∧
        ∃ pieces, pieces.flatten = (b :: p).drop n ∧ y.Takes (k + 1) pieces := by
  constructor
  · rintro ⟨pieces, hflatten, htakes⟩
    cases pieces with
    | nil => cases hflatten
    | cons piece pieces =>
        obtain ⟨hne, htaken, htakes⟩ := htakes
        rw [← List.flatten_cons, hflatten] at htaken
        obtain ⟨n, hwrite, hn⟩ := Option.map_eq_some_iff.mp htaken
        refine ⟨n, hwrite, ?_, pieces, ?_, htakes⟩
        · rw [hn]
          exact mt List.length_eq_zero_iff.mp hne
        · rw [hn, ← hflatten, List.flatten_cons, List.drop_left]
  · rintro ⟨n, hwrite, hn, pieces, hflatten, htakes⟩
    refine ⟨(b :: p).take n :: pieces, ?_, ?_, ?_, htakes⟩
    · rw [List.flatten_cons, hflatten, List.take_append_drop]
    · rw [Ne, List.take_eq_nil_iff]
      exact not_or.mpr ⟨hn, List.cons_ne_nil b p⟩
    · rw [hflatten, List.take_append_drop, hwrite, Option.map_some, List.length_take,
        Nat.min_eq_left (Nat.le_of_lt_succ n.isLt)]

/-- The loop ends just if the calls of `write` take the bytes in some pieces. -/
theorem writeText_eq_true_iff :
    (writeText y fd k p files).1 = true ↔ ∃ pieces, pieces.flatten = p ∧ y.Takes k pieces := by
  fun_induction writeText y fd k p files with
  | case1 k files => exact iff_of_true rfl ⟨[], rfl, trivial⟩
  | case2 k files b p hwrite =>
      rw [System.takes_iff, hwrite]
      exact iff_of_false nofun (by rintro ⟨n, ⟨⟩, -⟩)
  | case3 k files b p n hwrite hn =>
      rw [System.takes_iff, hwrite]
      refine iff_of_false nofun ?_
      rintro ⟨_, ⟨⟩, hne, -⟩
      exact hne hn
  | case4 k files b p n hwrite hn ih =>
      rw [ih, System.takes_iff, hwrite]
      constructor
      · exact fun h => ⟨n, rfl, hn, h⟩
      · rintro ⟨_, ⟨⟩, -, h⟩
        exact h

end

/-! ### Parsing -/

section

variable {y : System} {parseGraph : List UInt8 → Except String Γ} {yaml : List UInt8}
  {files : OpenFiles}

/-- However `parse_graph_text` ends, the open files are those there were. -/
theorem parseGraphText_files (y : System) (parseGraph : List UInt8 → Except String Γ)
    (yaml : List UInt8) (files : OpenFiles) :
    (parseGraphText y parseGraph yaml files).2 = files := by
  unfold parseGraphText
  split
  · rfl
  · rename_i fd hfd _
    have hclosed : close fd (writeText y fd 0 yaml (Function.update files fd (some []))).2 =
        files := by
      funext other
      by_cases h : other = fd
      · rw [h, close, Function.update_self, hfd]
      · rw [close, Function.update_of_ne h, writeText_other h, Function.update_of_ne h]
    dsimp only
    split
    · exact hclosed
    · exact hclosed

/-- It returns a graph just if the file takes the text, and that is what the text says. -/
theorem parseGraphText_eq_ok_iff {g : Γ} :
    (parseGraphText y parseGraph yaml files).1 = .ok g ↔
      y.Stores files yaml ∧ parseGraph yaml = .ok g := by
  unfold parseGraphText System.Stores
  split
  · rename_i hnone
    exact iff_of_false nofun fun h => h.1.1 hnone
  · rename_i fd hfd hsome
    have hcreated : y.memfdCreate files ≠ none := hsome ▸ Option.some_ne_none _
    dsimp only
    split
    · rename_i hwritten
      rw [writeText_self hwritten, Function.update_self, Option.map_some, Option.getD_some,
        List.nil_append]
      exact (and_iff_right ⟨hcreated, writeText_eq_true_iff.mp hwritten⟩).symm
    · rename_i hwritten
      exact iff_of_false nofun fun h => hwritten (writeText_eq_true_iff.mpr h.1.2)

end

/-! ### Loading -/

/-- `curl` gets the text of the graph from this address. -/
def Serves (get : String → Option Transfer) (url : String) (text : List UInt8) : Prop :=
  ∃ t, get url = some t ∧ t.error = none ∧ t.code = 200 ∧ t.pieces.flatten = text

theorem httpGet_eq_ok_iff {get : String → Option Transfer} {url : String} {text : List UInt8} :
    httpGet (get url) = .ok text ↔ Serves get url text := by
  have hbody (pieces : List (List UInt8)) (body : List UInt8) :
      pieces.foldl curlAppend body = body ++ pieces.flatten := by
    induction pieces generalizing body with
    | nil => simp
    | cons piece pieces ih =>
        rw [List.foldl_cons, ih, curlAppend, List.append_assoc, List.flatten_cons]
  unfold httpGet Serves
  split
  · rename_i hget
    simp [hget]
  · rename_i t hget
    dsimp only
    split
    · rename_i e herror
      simp [hget, herror]
    · rename_i herror
      split
      · rename_i hcode
        simp [hget, hcode]
      · rename_i hcode
        simp [hget, herror, not_not.mp hcode, hbody]

/-- The configuration gives each of the traits; a vehicle is reversible if it does not say. -/
structure TraitsConfig.Gives (c : TraitsConfig D) (traits : VehicleTraits D) : Prop where
  linearVelocity : c.linearVelocity = .ok traits.linearVelocity
  linearAccel : c.linearAccel = .ok traits.linearAccel
  angularVelocity : c.angularVelocity = .ok traits.angularVelocity
  angularAccel : c.angularAccel = .ok traits.angularAccel
  footprintRadius : c.footprintRadius = .ok traits.footprintRadius
  vicinityRadius : c.vicinityRadius = .ok traits.vicinityRadius
  reversible : c.reversible.getD (.ok true) = .ok traits.reversible

theorem TraitsConfig.traits_eq_ok_iff {c : TraitsConfig D} {traits : VehicleTraits D} :
    c.traits = .ok traits ↔ c.Gives traits := by
  simp only [TraitsConfig.traits, Except.bind_eq_ok]
  constructor
  · rintro ⟨_, hv, _, ha, _, hw, _, hb, _, hf, _, hy, _, hr, ⟨⟩⟩
    exact ⟨hv, ha, hw, hb, hf, hy, hr⟩
  · rintro ⟨hv, ha, hw, hb, hf, hy, hr⟩
    exact ⟨_, hv, _, ha, _, hw, _, hb, _, hf, _, hy, _, hr, rfl⟩

/-- **A graph is loaded** just if the configuration gives the traits and its address, the editor
serves its text, and the file takes the whole text; and the open files are left as they were,
whatever happens. -/
theorem navGraph_loaded_iff (y : System)
    (parseGraph : VehicleTraits D → List UInt8 → Except String Γ)
    (get : String → Option Transfer) (t : TraitsConfig D) (c : NavGraphConfig)
    (files : OpenFiles) :
    (∀ g, (loadNavGraph y parseGraph get t c files).1 = .ok g ↔
        ∃ traits url text, t.Gives traits ∧ c.url = some url ∧ Serves get url text ∧
          y.Stores files text ∧ parseGraph traits text = .ok g) ∧
      (loadNavGraph y parseGraph get t c files).2 = files := by
  simp only [← TraitsConfig.traits_eq_ok_iff]
  unfold loadNavGraph
  cases t.traits with
  | error e => exact ⟨fun g => iff_of_false nofun (by rintro ⟨traits, url, text, ⟨⟩, -⟩), rfl⟩
  | ok traits =>
      cases c.url with
      | none => exact ⟨fun g => iff_of_false nofun (by rintro ⟨_, url, text, -, ⟨⟩, -⟩), rfl⟩
      | some url =>
          cases hbody : httpGet (get url) with
          | error e =>
              simp only [hbody]
              refine ⟨fun g => iff_of_false nofun ?_, trivial⟩
              rintro ⟨_, _, text, -, ⟨⟩, hserves, -⟩
              cases hbody.symm.trans (httpGet_eq_ok_iff.mpr hserves)
          | ok yaml =>
              simp only [hbody]
              refine ⟨fun g => parseGraphText_eq_ok_iff.trans ⟨fun h => ?_, ?_⟩,
                parseGraphText_files y (parseGraph traits) yaml files⟩
              · exact ⟨traits, url, yaml, rfl, rfl, httpGet_eq_ok_iff.mp hbody, h⟩
              · rintro ⟨_, _, text, ⟨⟩, ⟨⟩, hserves, h⟩
                cases hbody.symm.trans (httpGet_eq_ok_iff.mpr hserves)
                exact h

end EgbFleet.Fleet
