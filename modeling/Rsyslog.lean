import Rsyslog.Queue.Fifo
import Rsyslog.Queue.DiskDelete
import Rsyslog.Msg.RoundTrip
import Rsyslog.Tcp.Frames
import Rsyslog.Stream.Cuts
import Rsyslog.Ratelimit.Window
import Rsyslog.Action.Bound
import Rsyslog.Action.Bracket
import Rsyslog.Action.DataFail
import Rsyslog.Action.Deferred
import Rsyslog.Action.Batch
import Rsyslog.Omhttp.Transaction
import Rsyslog.Script.Replace
import Rsyslog.Script.Ruleset
import Rsyslog.Script.StmtSound
import Rsyslog.Template.ToString
import Rsyslog.Json.Variable
import Rsyslog.Parser.Sanitize
import Rsyslog.Parser.MsgOffset
import Rsyslog.Datetime.Rfc3339
import Rsyslog.Ratelimit.Ownership
import Rsyslog.Ratelimit.Repeat
import Rsyslog.Stream.Files
import Rsyslog.Consumer.PutBack
import Rsyslog.Queue.ReadErrors
import Rsyslog.Msg.GetProp
import Rsyslog.Msg.Split
import Rsyslog.Omhttp.Limits
import Rsyslog.Omfwd.SingleTarget
import Rsyslog.Omfile.Commit
import Rsyslog.Net.PermittedPeer
import Rsyslog.Net.SenderLines
import Rsyslog.Queue.Sampling
import Rsyslog.Queue.Destruct
import Rsyslog.Parser.Pri
import Rsyslog.Dynstats.Cardinality
import Rsyslog.Lookup.Tables
import Rsyslog.Mmanon.Trie
import Rsyslog.Tcp.Imptcp
import Rsyslog.Tcp.Bounds
import Rsyslog.Queue.Params
import Rsyslog.Stream.Seek
import Rsyslog.Json.Field
import Rsyslog.Datetime.Calendar
import Rsyslog.Omfwd.UdpSend
import Rsyslog.Imuxsock.FixPid
