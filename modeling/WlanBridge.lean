import WlanBridge.FirstSeen
import WlanBridge.BurstPath
import WlanBridge.Stores
import WlanBridge.Moves
import WlanBridge.Receive
import WlanBridge.Atomicity
import WlanBridge.Star
import WlanBridge.Order
import WlanBridge.BurstSend
import WlanBridge.BooksAgree
import WlanBridge.Throughput
import WlanBridge.Independence
import WlanBridge.Drain
import WlanBridge.Sessions
import WlanBridge.EventLoop
import WlanBridge.Refcount
import WlanBridge.Tuntap
import WlanBridge.UthashWidths
import WlanBridge.PointersRun
import WlanBridge.EdgeTriggered
import WlanBridge.Lan
import WlanBridge.Terminal
import WlanBridge.Pipes
import WlanBridge.Words
import WlanBridge.Screens
import WlanBridge.Password
