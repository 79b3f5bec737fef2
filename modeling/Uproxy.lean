import Uproxy.Buffer.Queue
import Uproxy.Http1.Segment
import Uproxy.Http1.Forward
import Uproxy.Http1.Response
import Uproxy.Hpack.Index
import Uproxy.Proxy.Translate
import Uproxy.Proxy.Forward
import Uproxy.Pool.Balancer
import Uproxy.Http2.Run
import Uproxy.Http2.Window
import Uproxy.Http2.Conform
import Uproxy.Proxy.Pipeline
import Uproxy.Http2.Reply
import Uproxy.Http2.Assembly
import Uproxy.Http2.Loopback
import Uproxy.Pool.Session
import Uproxy.Pool.Routing
import Uproxy.Proxy.Statistics
import Uproxy.Proxy.Delimited
import Uproxy.Proxy.Output
import Uproxy.Http2.Padding
import Uproxy.Http2.Writer
import Uproxy.Http2.Encoder
import Uproxy.Http2.Buffers
import Uproxy.Hpack.Accounting
import Uproxy.Hpack.Canonical
import Uproxy.Proxy.Admission
import Uproxy.Proxy.Response
import Uproxy.Config.Document
import Uproxy.Config.Cli
import Uproxy.Tls.Alpn
import Uproxy.Buffer.Limits
import Uproxy.Http1.ChunkHeader
import Uproxy.EventLoop.Kqueue
import Uproxy.Proxy.Serving
import Uproxy.Proxy.Edge
import Uproxy.Proxy.H2Exchange
import Uproxy.Pool.Threads
import Uproxy.Proxy.Chain
import Uproxy.Hpack.Expansion
import Uproxy.Config.Diagnose
import Uproxy.Log
