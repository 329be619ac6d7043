import FlowManager.Flow.Schema
import FlowManager.Flow.Program
import FlowManager.Flow.Parse
import FlowManager.Flow.Cursor
import FlowManager.Flow.Route
import FlowManager.Flow.WellFormed
import FlowManager.Flow.Steps
import FlowManager.Flow.Safety
import FlowManager.Flow.Layout
import FlowManager.Flow.While
import FlowManager.Flow.Termination
import FlowManager.Flow.Structured
import FlowManager.Flow.Goto
import FlowManager.Flow.Lockstep
import FlowManager.Flow.Resume
import FlowManager.Flow.Cancel
import FlowManager.Flow.Nested
import FlowManager.Flow.Branch
import FlowManager.Im.Event
import FlowManager.Im.Connection
import FlowManager.Im.Server
import FlowManager.Im.LocalPop
import FlowManager.Im.Park
import FlowManager.Im.Terminating
import FlowManager.Im.Grant
import FlowManager.Im.Restart
import FlowManager.Im.Queue
import FlowManager.Im.Receive
import FlowManager.Im.Waiters
import FlowManager.Im.Window
import FlowManager.Im.Stages
import FlowManager.Im.Handover
import FlowManager.Im.Cluster
import FlowManager.Im.Board
import FlowManager.Im.Turns
import FlowManager.Im.Orphan
import FlowManager.Im.Leave
import FlowManager.Grpc.Form
import FlowManager.Grpc.Bridge
import FlowManager.Grpc.Delivery
import FlowManager.Grpc.Report
import FlowManager.Cc.Heard
import FlowManager.Bot.Late
import FlowManager.Grpc.Registry
import FlowManager.Calls.State
import FlowManager.Cache.Memory
import FlowManager.Cache.Settings
import FlowManager.Mq.Reconnect
import FlowManager.Text.Captures
import FlowManager.Text.Component
import FlowManager.Variables.Reads
import FlowManager.Variables.Lookup
import FlowManager.Variables.Export
import FlowManager.Fs.Bridged
import FlowManager.Sql.Sandbox
import FlowManager.Sql.Members
import FlowManager.Flow.Fork
import FlowManager.Flow.Timer
import FlowManager.Flow.Execute
import FlowManager.Text.Instructions
import FlowManager.Cache.Cookies
import FlowManager.Text.Classifier
