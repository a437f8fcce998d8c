import AetherGateway.Runs
import AetherGateway.Progress
import AetherGateway.Simulation
import AetherGateway.Codec
import AetherGateway.Relay
import AetherGateway.Streams.Manager
import AetherGateway.Streams.ManagerProofs
import AetherGateway.Streams.Callers
import AetherGateway.Streams.Servers
import AetherGateway.Streams.OneServer
import AetherGateway.Streams.Resolved
import AetherGateway.Streams.CacheEntries
import AetherGateway.Streams.Progress
import AetherGateway.Port.LocalPort
import AetherGateway.Port.Invariant
import AetherGateway.Port.Routing
import AetherGateway.Port.Replies
import AetherGateway.Port.LinkErrors
import AetherGateway.Port.Delivery
import AetherGateway.Port.Resolution
import AetherGateway.Port.Clouds
import AetherGateway.Port.Liveness
import AetherGateway.Port.Refinement
import AetherGateway.SerialQueue
import AetherGateway.SerialQueue.Weights
import AetherGateway.Lora.Settings
import AetherGateway.Lora.Driver
import AetherGateway.Lora.Invariant
import AetherGateway.Lora.Stall
import AetherGateway.Lora.AtMode
import AetherGateway.Lora.Operations
import AetherGateway.Lora.Settlement
import AetherGateway.Lora.PowerSave
import AetherGateway.Lora.PollEvent
import AetherGateway.Lora.Drain
import AetherGateway.Lora.Transcript
import AetherGateway.Lora.Scripts
import AetherGateway.Lora.Lifecycle
import AetherGateway.Lora.Commands
import AetherGateway.Sim.DataBus
import AetherGateway.Sim.Network
import AetherGateway.Sim.EndToEnd
import AetherGateway.Sim.Delivery
import AetherGateway.Sim.Transports
import AetherGateway.Sim.AccessPoints
import AetherGateway.Sim.Builds
