import AresBroker.Basic
import AresBroker.Topology.Validate
import AresBroker.Topology.Dynamic
import AresBroker.Broker.ScanNode
import AresBroker.Broker.Plan
import AresBroker.Broker.JsonNumber
import AresBroker.Broker.Reducer
import AresBroker.Broker.Response
import AresBroker.Broker.Fanout
import AresBroker.Broker.Liveness
import AresBroker.Broker.Delivery
import AresBroker.Broker.Refinement
import AresBroker.Query.Utils
