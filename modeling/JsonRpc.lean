import JsonRpc.Lib.PrefixCut
import JsonRpc.Lib.SortedMap
import JsonRpc.Lib.Runs
import JsonRpc.Lib.Text
import JsonRpc.Lib.Wildcard
import JsonRpc.Lib.SocketAddr
import JsonRpc.Lib.SinkContract
import JsonRpc.Lib.Correlator
import JsonRpc.Lib.Router
import JsonRpc.Lib.Ledger
import JsonRpc.Lib.OneshotChannel
import JsonRpc.Lib.Interceptor
import JsonRpc.Lib.Slab
import JsonRpc.Lib.Partition
import JsonRpc.Lib.BufferUnordered
import JsonRpc.Serde.Content
import JsonRpc.Serde.Derive
import JsonRpc.Serde.JsonString
import JsonRpc.Core.Types
import JsonRpc.Core.RequestWire
import JsonRpc.Core.ResponseWire
import JsonRpc.Core.Handler
import JsonRpc.Core.Dispatch
import JsonRpc.Core.BatchLaw
import JsonRpc.Core.Grammar
import JsonRpc.Core.Middleware
import JsonRpc.Client.Transport
import JsonRpc.Client.Duplex
import JsonRpc.Client.Invariant
import JsonRpc.Client.Correlation
import JsonRpc.Client.Closing
import JsonRpc.Client.Independence
import JsonRpc.Client.Routing
import JsonRpc.Client.SubscriptionLife
import JsonRpc.Client.Outgoing
import JsonRpc.Client.Local
import JsonRpc.Client.Handling
import JsonRpc.Client.EndToEnd
import JsonRpc.Client.LocalUse
import JsonRpc.Client.LocalResponses
import JsonRpc.Client.LocalDuplex
import JsonRpc.Client.Websocket
import JsonRpc.Client.WebsocketQueue
import JsonRpc.Core.Serving
import JsonRpc.Client.Answering
import JsonRpc.Client.Http
import JsonRpc.Client.HttpAnswers
import JsonRpc.PubSub.Sink
import JsonRpc.PubSub.Session
import JsonRpc.PubSub.Invariant
import JsonRpc.PubSub.TearDown
import JsonRpc.PubSub.Orphans
import JsonRpc.PubSub.Rendezvous
import JsonRpc.PubSub.Manager
import JsonRpc.Codec.StreamCodec
import JsonRpc.Codec.Chunking
import JsonRpc.Codec.BalancedText
import JsonRpc.Codec.Framing
import JsonRpc.Codec.JsonText
import JsonRpc.Codec.RoundTrip
import JsonRpc.Codec.FramedRead
import JsonRpc.Codec.Transit
import JsonRpc.Ipc.SelectWithWeak
import JsonRpc.Ipc.Connection
import JsonRpc.Ipc.Answers
import JsonRpc.Ipc.Closing
import JsonRpc.Client.IpcEndToEnd
import JsonRpc.Tcp.Server
import JsonRpc.Tcp.PeerMessageQueue
import JsonRpc.Tcp.Exchange
import JsonRpc.Stdio.Server
import JsonRpc.ServerUtils.Hosts
import JsonRpc.ServerUtils.Cors
import JsonRpc.ServerUtils.Normal
import JsonRpc.ServerUtils.Canonical
import JsonRpc.ServerUtils.Authorised
import JsonRpc.ServerUtils.SuspendableStream
import JsonRpc.Ws.Session
import JsonRpc.Ws.Liveness
import JsonRpc.Ws.Upgrade
import JsonRpc.Ws.Progress
import JsonRpc.Ws.Connection
import JsonRpc.Ws.Sending
import JsonRpc.Ws.Server
import JsonRpc.Client.WebsocketEndToEnd
import JsonRpc.Client.Publishing
import JsonRpc.Http.Request
import JsonRpc.Http.Handler
import JsonRpc.Http.Gate
import JsonRpc.Http.Opening
import JsonRpc.Http.Body
import JsonRpc.Http.Rest
import JsonRpc.Http.RequestedHeaders
import JsonRpc.Http.Answer
import JsonRpc.Client.HttpEndToEnd
import JsonRpc.Derive.Generate
import JsonRpc.Derive.Params
import JsonRpc.Derive.Attribute
import JsonRpc.Derive.Accepted
import JsonRpc.Derive.Agreement
import JsonRpc.Derive.Trailing
import JsonRpc.Derive.Registration
import JsonRpc.Derive.Registered
import JsonRpc.Derive.Delegate
