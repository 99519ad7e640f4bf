import BleGateway.Lib.Blocks
import BleGateway.Lib.Budget
import BleGateway.Lib.CArray
import BleGateway.Lib.Calls
import BleGateway.Lib.Consumer
import BleGateway.Lib.Fgets
import BleGateway.Lib.Lookahead
import BleGateway.Lib.Mealy
import BleGateway.Lib.Network
import BleGateway.Lib.Records
import BleGateway.Lib.Sched
import BleGateway.Lib.Stores
import BleGateway.Lib.Traffic
import BleGateway.HciCommands
import BleGateway.MsgDef
import BleGateway.Framer
import BleGateway.Wire
import BleGateway.Resync
import BleGateway.Dispatch
import BleGateway.Stale
import BleGateway.Encoders
import BleGateway.Pipe
import BleGateway.Forward
import BleGateway.Recipients
import BleGateway.Pairing
import BleGateway.Gateway
import BleGateway.Relay
import BleGateway.Bounds
import BleGateway.CentralMode
import BleGateway.LinkSetup
import BleGateway.Bonding
import BleGateway.Posting
import BleGateway.DeadEnds
import BleGateway.CentralStale
import BleGateway.ConnCount
import BleGateway.FailedReceives
import BleGateway.Answers
import BleGateway.CentralCommands
import BleGateway.CommandStream
import BleGateway.CloudRelay
import BleGateway.LedController
import BleGateway.LedFifo
import BleGateway.LedPins
import BleGateway.RetryLoops
import BleGateway.PipeFrames
import BleGateway.ConnRouting
import BleGateway.WriteAcks
import BleGateway.TableBounds
import BleGateway.Verdicts
import BleGateway.LedToggle
import BleGateway.LedGrammar
import BleGateway.LedRaces
import BleGateway.SetParam
import BleGateway.SocksUrl
import BleGateway.ClientConfig
import BleGateway.ClientLoad
import BleGateway.ConfigFile
import BleGateway.SocksMemory
import BleGateway.ConfigMemory
import BleGateway.PublishLines
import BleGateway.PubClient
import BleGateway.PubMessage
import BleGateway.ClientStart
import BleGateway.Subscriber
import BleGateway.CentralSession
import BleGateway.Schedules
import BleGateway.MsgQueues
