import RethinkDB.Ast.Encoding
import RethinkDB.Ast.Hygiene
import RethinkDB.Async.Cancellation
import RethinkDB.Async.Connect
import RethinkDB.Async.FetchNext
import RethinkDB.Async.Pool
import RethinkDB.Async.PoolTasks
import RethinkDB.Async.ReadExactly
import RethinkDB.Async.Registration
import RethinkDB.Async.Sending
import RethinkDB.Async.Stranding
import RethinkDB.Async.Streams
import RethinkDB.Export.ExportTable
import RethinkDB.Export.CsvWriter
import RethinkDB.Export.JsonRoundTrip
import RethinkDB.Export.Reconnect
import RethinkDB.Export.RunClients
import RethinkDB.Export.Statistics
import RethinkDB.Gevent.Agreement
import RethinkDB.Handshake.Fallback
import RethinkDB.Handshake.Unicode
import RethinkDB.Handshake.Soundness
import RethinkDB.Import.JsonComplete
import RethinkDB.Import.JsonLimit
import RethinkDB.Import.JsonLeading
import RethinkDB.Import.JsonBuffering
import RethinkDB.Import.Metadata
import RethinkDB.Import.Pipeline
import RethinkDB.Import.Prepare
import RethinkDB.Import.Progress
import RethinkDB.Import.ReadToQueue
import RethinkDB.Import.Recovery
import RethinkDB.Import.Sources
import RethinkDB.IndexRebuild.Invariant
import RethinkDB.IndexRebuild.Prepare
import RethinkDB.Net.Decoding
import RethinkDB.Net.Lifecycle
import RethinkDB.Net.Deadline
import RethinkDB.Net.MakeConnection
import RethinkDB.Net.Position
import RethinkDB.Net.Retired
import RethinkDB.Net.Certificate
import RethinkDB.Net.Connected
import RethinkDB.Net.Demux
import RethinkDB.Net.Wire
import RethinkDB.Restore.Dump
import RethinkDB.Restore.Unzip
import RethinkDB.Scripts.ConvertProtofile
import RethinkDB.Twisted.Draining
import RethinkDB.Twisted.FetchNext
import RethinkDB.Twisted.Login
import RethinkDB.Twisted.NextOrder
import RethinkDB.Twisted.Segmentation
import RethinkDB.Utils.RetryQuery
import RethinkDB.Ast.Time
import RethinkDB.Ast.Grouped
import RethinkDB.Ast.Rendering
import RethinkDB.Ast.Slice
