import EgbFleet.Support.Runs
import EgbFleet.Support.Logs
import EgbFleet.Navigation.Stale
import EgbFleet.Navigation.Once
import EgbFleet.Navigation.Replan
import EgbFleet.Navigation.Manoeuvre
import EgbFleet.Navigation.Arrival
import EgbFleet.Navigation.Feedback
import EgbFleet.Navigation.Release
import EgbFleet.Actions.Concluded
import EgbFleet.Frames.Agreement
import EgbFleet.Actions.Categories
import EgbFleet.Actions.Execution
import EgbFleet.Recovery.Spacing
import EgbFleet.Paths.Goals
import EgbFleet.Fleet.Roster
import EgbFleet.Spawner.Processes
import EgbFleet.Spawner.ConfigFiles
import EgbFleet.Paths.UndockSearch
import EgbFleet.Paths.ClosestWaypoint
import EgbFleet.Spawner.Responses
import EgbFleet.Frames.Reference
import EgbFleet.Paths.Limits
import EgbFleet.Fleet.Attempts
import EgbFleet.Paths.ApproachYaw
import EgbFleet.Actions.Context
import EgbFleet.Fleet.RestScan
import EgbFleet.Paths.BestApproach
import EgbFleet.Robot.Reports
import EgbFleet.Frames.Tf
import EgbFleet.Frames.Calibration
import EgbFleet.Fleet.Robots
import EgbFleet.Fleet.Schedule
import EgbFleet.Fleet.NavGraph
import EgbFleet.Spawner.Shutdown
import EgbFleet.Spawner.FleetConfig
import EgbFleet.Spawner.Status
import EgbFleet.Actions.Undocks
import EgbFleet.Fleet.Configured
