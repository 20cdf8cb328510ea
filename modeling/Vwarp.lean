import Vwarp.Lib.BigEndian
import Vwarp.Lib.SortedInsert
import Vwarp.Lib.ExceptStep
import Vwarp.Lib.GoText
import Vwarp.Lib.GoIo
import Vwarp.Lib.Bufio
import Vwarp.Lib.Transition
import Vwarp.Lib.OnesComplement
import Vwarp.Netip
import Vwarp.NetText
import Vwarp.Engine.Queue
import Vwarp.Engine.Pipeline
import Vwarp.Engine.PipelineSteps
import Vwarp.Engine.PipelineRun
import Vwarp.Conn.ProxyBind
import Vwarp.GoRuntime
import Vwarp.Noize.Config
import Vwarp.Noize.Obfuscate
import Vwarp.Cps
import Vwarp.Preflight.Config
import Vwarp.Config.Unified
import Vwarp.Config.Validator
import Vwarp.Preflight.Packets
import Vwarp.Preflight.Bind
import Vwarp.Noize.Signature
import Vwarp.Noize.SignatureBytes
import Vwarp.Config.Signatures
import Vwarp.Config.Loader
import Vwarp.Iterator.Range
import Vwarp.Iterator.Generate
import Vwarp.App.MasqueTunnel
import Vwarp.Proxy.Handshake
import Vwarp.Proxy.Mixed
import Vwarp.Proxy.UdpRelay
import Vwarp.Device.Uapi
import Vwarp.Wiresocks.Config
import Vwarp.App.Wireguard
import Vwarp.Device.Wire
import Vwarp.Noize.Handshake
import Vwarp.Proxy.CustomConn
import Vwarp.Proxy.AddrCodec
import Vwarp.Proxy.Socks4Grammar
import Vwarp.Iterator.Segments
import Vwarp.Noize.Sizes
import Vwarp.Ping.Checksum
import Vwarp.Iputils.RandomIp
import Vwarp.Iputils.Mtu
import Vwarp.Ipscanner.Endpoint
import Vwarp.Wiresocks.Scanner
import Vwarp.Lib.Simulation
import Vwarp.Lib.Bitmap
import Vwarp.Device.Replay
import Vwarp.Tun.Checksum
import Vwarp.Tun.Offload
import Vwarp.Tun.Split
import Vwarp.Lib.BitString
import Vwarp.Lib.PrefixMatch
import Vwarp.Device.AllowedIPs
import Vwarp.Device.AllowedIPsTable
import Vwarp.Lib.Projection
import Vwarp.Lib.TokenBucket
import Vwarp.Device.Ratelimiter
