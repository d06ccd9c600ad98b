import Wayfind.Main
import Wayfind.Scripted.Peer
import Wayfind.Scripted.Server
import Wayfind.Selector.Accessible
import Wayfind.Simulation.Side
import Wayfind.Proofs.Activity.Crowd
import Wayfind.Proofs.Simulation.Award
import Wayfind.Proofs.Simulation.Conservation
import Wayfind.Proofs.Simulation.Deadline
import Wayfind.Proofs.Simulation.Dropping
import Wayfind.Proofs.Simulation.Effect
import Wayfind.Proofs.Simulation.Found
import Wayfind.Proofs.Simulation.Hiding
import Wayfind.Proofs.Simulation.Winner
import Wayfind.Proofs.Connection.Registry
import Wayfind.Proofs.Connection.Broadcast
import Wayfind.Proofs.Selector.RoundTrip
import Wayfind.Proofs.Selector.Shape
import Wayfind.Proofs.Selector.Joining
import Wayfind.Proofs.Selector.Fragments
import Wayfind.Proofs.Selector.Spelling
import Wayfind.Proofs.Selector.Escaping
import Wayfind.Proofs.Selector.Wire
import Wayfind.Proofs.Selector.Shielding
import Wayfind.Proofs.Selector.Rounds
import Wayfind.Proofs.Query.History
import Wayfind.Proofs.Remote.Every
import Wayfind.Proofs.Remote.Conservation
import Wayfind.Proofs.Remote.Session
import Wayfind.Proofs.Remote.Promises
import Wayfind.Proofs.Remote.Clicking
import Wayfind.Proofs.Remote.Accessible
import Wayfind.Proofs.Simulation.Releases
import Wayfind.Proofs.Simulation.Retrying
import Wayfind.Proofs.Simulation.Stopping
import Wayfind.Proofs.Remote.Querying
import Wayfind.Proofs.Remote.Dispatching
import Wayfind.Proofs.Remote.References
import Wayfind.Proofs.Remote.Disposed
import Wayfind.Proofs.Remote.Stopping
import Wayfind.Proofs.Page.Converging
import Wayfind.Proofs.Remote.Items
import Wayfind.Proofs.Locator.Settings
