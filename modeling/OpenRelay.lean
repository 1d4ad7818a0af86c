import OpenRelay.Basic
import OpenRelay.Lib.Slice
import OpenRelay.Lib.Runs
import OpenRelay.Lib.LittleEndian
import OpenRelay.Lib.SortedMap
import OpenRelay.Lib.Lines
import OpenRelay.Lib.Effects
import OpenRelay.Lib.Chunks
import OpenRelay.Lib.Fields
import OpenRelay.Lib.Broadcast
import OpenRelay.Pump
import OpenRelay.PumpDrain
import OpenRelay.PumpCredit
import OpenRelay.Journal.Record
import OpenRelay.Journal.Scan
import OpenRelay.Journal.ScanModes
import OpenRelay.Journal.Manifest
import OpenRelay.Journal.Disk
import OpenRelay.Journal.Open
import OpenRelay.Journal.ManifestReader
import OpenRelay.Journal.Frame
import OpenRelay.Journal.Writer
import OpenRelay.Journal.Layout
import OpenRelay.Journal.Appender
import OpenRelay.Journal.Protocol
import OpenRelay.Journal.Stream
import OpenRelay.Journal.StreamEnd
import OpenRelay.Journal.Recovery
import OpenRelay.Journal.Verify
import OpenRelay.Journal.Truthful
import OpenRelay.Journal.Retention
import OpenRelay.Journal.Interrupted
import OpenRelay.Journal.Live
import OpenRelay.Journal.Available
import OpenRelay.Journal.Incarnations
import OpenRelay.Pty.Signals
import OpenRelay.Pty.Scan
import OpenRelay.Pty.Lexer
import OpenRelay.Pty.Sanitise
import OpenRelay.Pty.Conservation
import OpenRelay.Pty.ProgramStatus
import OpenRelay.Pty.Restore
import OpenRelay.Journal.Checkpoint
import OpenRelay.Journal.Gate
import OpenRelay.Journal.Budget
import OpenRelay.Session.Replay
import OpenRelay.Session.Reader
import OpenRelay.Session.Resizes
import OpenRelay.Session.LogRecords
import OpenRelay.Session.Anchors
import OpenRelay.Session.Runtime
import OpenRelay.Session.LiveStream
import OpenRelay.Session.JournalReplay
import OpenRelay.Session.Following
import OpenRelay.Session.Written
import OpenRelay.Session.FailLoud
import OpenRelay.Session.EndOfLife
import OpenRelay.Session.Attach
import OpenRelay.Session.PersistedLen
import OpenRelay.Session.Observation
import OpenRelay.Session.Upload
import OpenRelay.Session.ConcurrentUploads
import OpenRelay.Session.Attachments
import OpenRelay.Session.Control
import OpenRelay.Session.Codecs
import OpenRelay.Session.Published
import OpenRelay.Session.ReadGeneration
import OpenRelay.Session.ScreenReplay
import OpenRelay.Session.ScreenHistory
import OpenRelay.Session.RenderedTail
import OpenRelay.Session.TailWindow
import OpenRelay.Session.FilteredTail
import OpenRelay.Ipc.Response
import OpenRelay.Ipc.Base64
import OpenRelay.Ipc.AttachFrame
import OpenRelay.Ipc.Line
import OpenRelay.Ipc.LineReader
import OpenRelay.Ipc.Relay
import OpenRelay.Client.Attach
import OpenRelay.Client.AttachInput
import OpenRelay.Client.StreamPages
import OpenRelay.Client.Export
import OpenRelay.Client.KeySpec
import OpenRelay.Client.LogMatch
import OpenRelay.Client.LogWait
import OpenRelay.Ws.Frame
import OpenRelay.Ws.Revocation
import OpenRelay.Federation.Channel
import OpenRelay.Federation.Link
import OpenRelay.Federation.Handshake
import OpenRelay.Federation.Authorization
import OpenRelay.Lib.Tagged
import OpenRelay.Federation.RpcCall
import OpenRelay.Federation.RpcDelivery
import OpenRelay.Federation.RpcRelay
import OpenRelay.Federation.RpcResults
import OpenRelay.Http.Lockout
import OpenRelay.Http.EntityTags
import OpenRelay.Http.EventStream
import OpenRelay.Http.SessionLookup
import OpenRelay.Store.EndTimes
import OpenRelay.Store.Presence
import OpenRelay.Store.Agreement
import OpenRelay.Store.Completion
import OpenRelay.Store.SoftStop
import OpenRelay.Store.Search
import OpenRelay.Session.Notify
import OpenRelay.Ws.AttachSource
import OpenRelay.Ws.ForeignResizes
import OpenRelay.Web.HistoryController
import OpenRelay.Web.LogReplay
import OpenRelay.Terminal.PlainRows
import OpenRelay.Client.OuterTerminal
