import Freak.Lib.Bytes
import Freak.Lib.Json
import Freak.Lib.Ring
import Freak.Lib.Run
import Freak.Lib.Schema
import Freak.Lib.Same
import Freak.Lib.Codecs
import Freak.Proto.Records
import Freak.Proto.Ops
import Freak.Media.Record
import Freak.Media.Delivery
import Freak.Media.RoundTrip
import Freak.Vsf.Callback
import Freak.Utils.Que
import Freak.Utils.QueWake
import Freak.Alg.Face
import Freak.Rtsp.Media
import Freak.Rtsp.Session
import Freak.Rtsp.Setup
import Freak.Rtsp.Streams
import Freak.Rtsp.Table
import Freak.Manager.Store
import Freak.Manager.Compiled
import Freak.Manager.Svr
import Freak.Lib.JsonRead
import Freak.Proto.Package
import Freak.Proto.Forward
import Freak.Manager.Image
import Freak.Proto.Msgbox
import Freak.Proto.Client
import Freak.Proto.Formats
import Freak.Manager.Index
import Freak.Manager.Formats
import Freak.Web.Gateway
import Freak.Web.Bounds
import Freak.Rtsp.Pause
import Freak.Rtsp.Interleaved
import Freak.Media.Overflow
import Freak.Manager.Vpss
import Freak.Vsf.Rgn
import Freak.Alg.Task
import Freak.Alg.Life
import Freak.Web.Callbacks
import Freak.Web.Frames
import Freak.Lib.Given
import Freak.Manager.Stale
import Freak.Lib.Grid
import Freak.Vsf.Draw
import Freak.Alg.Results
import Freak.Utils.Reqrep
import Freak.Proto.Reply
import Freak.Vsf.Venc
import Freak.Media.Stamp
import Freak.Lib.Printf
import Freak.Rtsp.Describe
import Freak.Web.Handshake
import Freak.Utils.Virt2phys
import Freak.Utils.JsonCfg
import Freak.Utils.Log
import Freak.Hal.Objects
import Freak.Lib.Registry
import Freak.Utils.Physmap
import Freak.Manager.Network
import Freak.Manager.Restart
import Freak.Manager.Boot
import Freak.Vsf.Osd
import Freak.Vsf.Fetch
import Freak.Lib.Bus
import Freak.Media.Mfifo
import Freak.Alg.Overlay
import Freak.Utils.Atomic
import Freak.Proto.Wire
import Freak.Manager.Clients
import Freak.Lib.Exact
import Freak.Proto.Heading
import Freak.Web.Browser
import Freak.Manager.Browsers
import Freak.Utils.Progress
import Freak.Manager.Waiting
