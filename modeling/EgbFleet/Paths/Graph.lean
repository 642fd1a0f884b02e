import Mathlib.Data.Rat.Defs

/-!
# Paths — the traffic graph

`rmf_traffic::agv::Graph`, as far as the adapter reads it: the waypoints' positions, of a type `P`,
and the lanes between them.  `add_lane` takes lanes between waypoints that exist, which `Graph`
carries as a field; so a lane's ends always have a position.
-/

namespace EgbFleet.Paths

/-- `Graph::Lane::Event`, by the overload of `Executor::execute` it is dispatched to. -/
inductive LaneEvent where
  | dock (dockName : String)
  | doorOpen
  | doorClose
  | liftSessionBegin
  | liftSessionEnd
  | liftMove
  | liftDoorOpen
  | wait
  deriving DecidableEq

/-- `Graph::Lane`: the waypoints at its ends, the event at its exit, and its speed limit. -/
structure GraphLane where
  entry : Nat
  exit : Nat
  exitEvent : Option LaneEvent := none
  speedLimit : Option ℚ := none
  deriving DecidableEq

structure Graph (P : Type) where
  waypoints : List P
  lanes : List GraphLane
  ends : ∀ lane ∈ lanes, lane.entry < waypoints.length ∧ lane.exit < waypoints.length

variable {P : Type}

/-- `get_lane(i)`; `none` where it raises `std::out_of_range`. -/
def Graph.getLane (g : Graph P) (i : Nat) : Option GraphLane := g.lanes[i]?

/-- `get_waypoint(i).get_location()`, of a waypoint that exists. -/
def Graph.location [Inhabited P] (g : Graph P) (i : Nat) : P := g.waypoints.getD i default

/-- `DockNameInspector`, on the event at a lane's exit. -/
def GraphLane.docks (dockName : String) (lane : GraphLane) : Bool :=
  match lane.exitEvent with
  | some (.dock name) => name == dockName
  | _ => false

end EgbFleet.Paths
