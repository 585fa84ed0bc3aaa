import OpenHalfLife.Lib.Duplex
import OpenHalfLife.Lib.Machine
import OpenHalfLife.Protocol.Frame
import OpenHalfLife.Protocol.Session
import OpenHalfLife.Protocol.Phase
import OpenHalfLife.Protocol.Agreement
import OpenHalfLife.Protocol.Grammar
import OpenHalfLife.Protocol.Messages
import OpenHalfLife.Protocol.Fields
import OpenHalfLife.Protocol.BatchCodec
import OpenHalfLife.Protocol.MessageCodec
import OpenHalfLife.Protocol.FrameCodec
import OpenHalfLife.Worker.Capability
import OpenHalfLife.Worker.Service
import OpenHalfLife.Worker.LifeCycle
import OpenHalfLife.Save.Container
import OpenHalfLife.Save.Images
import OpenHalfLife.Save.RoundTrip
import OpenHalfLife.Cab.BitReader
import OpenHalfLife.Cab.Lzx
import OpenHalfLife.Cab.ReaderSafety
import OpenHalfLife.Cab.LzxSafety
import OpenHalfLife.Import.Catalog
import OpenHalfLife.Import.Planner
import OpenHalfLife.Import.Alias
import OpenHalfLife.Import.ResultSession
import OpenHalfLife.Import.Broker
import OpenHalfLife.Import.History
import OpenHalfLife.Import.Accounting
import OpenHalfLife.Import.Step
import OpenHalfLife.Import.Authority
import OpenHalfLife.Import.BrokerRuns
import OpenHalfLife.Import.StreamAccount
import OpenHalfLife.Peers.Enumeration
import OpenHalfLife.Backends.WiseWalk
import OpenHalfLife.Wise.Attempt
import OpenHalfLife.Wise.Resolution
import OpenHalfLife.Backends.WalkAgrees
import OpenHalfLife.Backends.Dispatcher
import OpenHalfLife.Backends.ReadPolicy
import OpenHalfLife.Payload.Plan
import OpenHalfLife.Payload.Transaction
import OpenHalfLife.Payload.Calls
import OpenHalfLife.Payload.Planted
import OpenHalfLife.Payload.Exact
import OpenHalfLife.Lib.Drain
import OpenHalfLife.Game.Registry
import OpenHalfLife.Game.TrackTrain
import OpenHalfLife.Game.TrackRide
import OpenHalfLife.Game.Movers
import OpenHalfLife.Game.MoverPose
import OpenHalfLife.Engine.Keyvalues
import OpenHalfLife.Engine.Snapshot
import OpenHalfLife.Engine.Transition
import OpenHalfLife.Engine.Carried
import OpenHalfLife.Engine.Arrival
import OpenHalfLife.Game.Simulation
import OpenHalfLife.Game.Turns
import OpenHalfLife.Game.Queue
import OpenHalfLife.Game.Manager
import OpenHalfLife.Game.Order
import OpenHalfLife.Game.Foreign
import OpenHalfLife.Game.Latch
import OpenHalfLife.World.Visibility
import OpenHalfLife.Udf.Session
import OpenHalfLife.Route.Paths
import OpenHalfLife.Save.GameRoundTrip
import OpenHalfLife.Physics.Clearance
import OpenHalfLife.Physics.BrushCalls
import OpenHalfLife.Physics.Brushes
import OpenHalfLife.Ai.Script
import OpenHalfLife.Ai.ScriptBrackets
import OpenHalfLife.Backends.Spelling
import OpenHalfLife.Cab.Folder
import OpenHalfLife.Cab.FolderSeek
import OpenHalfLife.Cab.LzxWriter
import OpenHalfLife.Isz.Archive
import OpenHalfLife.Isz.EntryReads
import OpenHalfLife.Lib.Claims
import OpenHalfLife.Payload.Layout
import OpenHalfLife.Payload.Selection
import OpenHalfLife.Wise.FileMap
import OpenHalfLife.Formats.AnimChannel
import OpenHalfLife.Formats.Entities
import OpenHalfLife.Formats.MeshCommands
import OpenHalfLife.Formats.Visibility
import OpenHalfLife.Import.SignatureScan
import OpenHalfLife.Cabinet.Delivered
import OpenHalfLife.Cabinet.Retried
import OpenHalfLife.Combat.Firing
import OpenHalfLife.Combat.Restored
import OpenHalfLife.Lib.Weighted
import OpenHalfLife.Nav.Correct
import OpenHalfLife.Game.RideAgrees
import OpenHalfLife.Lib.Sorted
import OpenHalfLife.Patch.Census
import OpenHalfLife.Patch.Precedence
import OpenHalfLife.Patch.Served
import OpenHalfLife.Ai.Spawner
import OpenHalfLife.Audio.Blocks
import OpenHalfLife.Combat.AttackTrace
import OpenHalfLife.Combat.Conserved
import OpenHalfLife.Combat.Inventory
import OpenHalfLife.Combat.NearestHit
import OpenHalfLife.World.Leaf
import OpenHalfLife.Lib.Batches
import OpenHalfLife.Lib.Painting
import OpenHalfLife.Physics.BroadPhase
import OpenHalfLife.World.Assemble
import OpenHalfLife.World.Atlas
import OpenHalfLife.World.AtlasTiles
import OpenHalfLife.World.Collected
import OpenHalfLife.World.DrawList
import OpenHalfLife.Player.Suit
import OpenHalfLife.Ai.Senses
import OpenHalfLife.Cab.Stream
import OpenHalfLife.Isz.Codebook
import OpenHalfLife.Peers.Codes
import OpenHalfLife.Lib.First
import OpenHalfLife.Monsters.BigMomma
import OpenHalfLife.Monsters.Bosses
import OpenHalfLife.Monsters.Movement
import OpenHalfLife.Monsters.NavBridge
import OpenHalfLife.Player.State
import OpenHalfLife.Player.Systems
import OpenHalfLife.World.Lightmaps
import OpenHalfLife.Assets.Index
import OpenHalfLife.Assets.Precedence
import OpenHalfLife.Iso.Agreement
import OpenHalfLife.Iso.Reading
import OpenHalfLife.Route.Cheapest
