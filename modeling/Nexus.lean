import Nexus.Graph.Walk
import Nexus.Graph.Search
import Nexus.Graph.Settling
import Nexus.Graph.Relay
import Nexus.Graph.Overtaking
import Nexus.Graph.FirstRelay
import Nexus.Runtime
import Nexus.Binary64
import Nexus.NetworkManager
import Nexus.Routing.Weights
import Nexus.Routing.TopologyFill
import Nexus.Routing.Simulation
import Nexus.Routing.Distances
import Nexus.Routing.WeightRange
import Nexus.Routing.Table
import Nexus.Routing.FirstHop
import Nexus.Routing.Reachability
import Nexus.ByteOrder
import Nexus.Packet
import Nexus.Codec
import Nexus.Numeral
import Nexus.Inet
import Nexus.Node
import Nexus.Exchange
import Nexus.Receiver
import Nexus.TextMessages
import Nexus.Network
import Nexus.Delivery
import Nexus.GroundLinks
import Nexus.Collect
import Nexus.Reassembly
import Nexus.Transfers
import Nexus.Isolation
import Nexus.Chunks
import Nexus.FileTransfer
import Nexus.FloatText
import Nexus.Json
import Nexus.Entries
import Nexus.Registry.Server
import Nexus.Registry.AsMap
import Nexus.Registry.Requests
import Nexus.Registry.Membership
import Nexus.Registry.Commuting
import Nexus.Registry.Answers
import Nexus.Occurrence
import Nexus.Registry.Socket
import Nexus.Client
import Nexus.NodeList
import Nexus.Routing.Ranges
import Nexus.Routing.Accesses
import Nexus.Routing.Growth
import Nexus.Routing.Recomputing
import Nexus.Registry.ClientView
import Nexus.Registry.Following
import Nexus.Registry.Refreshing
import Nexus.JsonText
import Nexus.JsonNesting
import Nexus.Registry.PublicKey
import Nexus.Flooding.Runs
import Nexus.Flooding.Once
import Nexus.Flooding.Termination
import Nexus.Python.Packet
import Nexus.Python.GroundNode
import Nexus.Python.SatelliteNode
import Nexus.Python.Relaying
import Nexus.Python.Transfer
import Nexus.Python.Reading
import Nexus.Python.Delivered
import Nexus.Python.Constellation
import Nexus.Crc.Polynomial
import Nexus.Crc.Register
import Nexus.Crc.Powers
import Nexus.Crc.Span
import Nexus.Checksum
import Nexus.Corruption
import Nexus.Bursts
import Nexus.FragmentNumbers
import Nexus.HostOrder
import Nexus.Malformed
import Nexus.Registry.Arithmetic
import Nexus.Registry.Rounding
import Nexus.Routing.Selection
import Nexus.Movement
import Nexus.Payload
import Nexus.Transition
import Nexus.Fleet.System
import Nexus.Fleet.Soundness
import Nexus.Fleet.Membership
import Nexus.Fleet.Freshness
import Nexus.Forwarding
import Nexus.NetworkTransfer
import Nexus.Registry.Http
import Nexus.Fleet.Reports
import Nexus.InputStream
import Nexus.CommandLine
import Nexus.Launch
import Nexus.Python.Retries
import Nexus.Python.Tracking
import Nexus.Python.Sky
import Nexus.Python.Carried
import Nexus.Python.Provenance
