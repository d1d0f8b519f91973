import Danmaku.Lib.Transition
import Danmaku.Lib.Loop
import Danmaku.Lib.Window
import Danmaku.Lib.Fifo
import Danmaku.Lib.Slots
import Danmaku.Lib.DmaEngine
import Danmaku.Lib.Bump
import Danmaku.Lib.Lines
import Danmaku.Lib.Painter
import Danmaku.Lib.MarkedStream
import Danmaku.Constants
import Danmaku.Ring
import Danmaku.Screen
import Danmaku.Text
import Danmaku.Queen
import Danmaku.QueueFifo
import Danmaku.FontMap
import Danmaku.Outline
import Danmaku.PixelFilter
import Danmaku.Layers
import Danmaku.Driver
import Danmaku.RenderOnce
import Danmaku.Frames
import Danmaku.QueueBounds
import Danmaku.Delivery
import Danmaku.Fetcher
import Danmaku.LayerMaps
import Danmaku.FrameBounds
import Danmaku.Compose
import Danmaku.FrameFormat
import Danmaku.Overlay
import Danmaku.Handoff
import Danmaku.Threads
import Danmaku.Moves
import Danmaku.Tearing
import Danmaku.ReleaseOrder
import Danmaku.Ending
import Danmaku.FrameOrder
import Danmaku.Rendering
import Danmaku.Layout
import Danmaku.MapAccess
import Danmaku.Allocation
import Danmaku.Insertion
import Danmaku.CleanMaps
import Danmaku.SlidingCycle
import Danmaku.SlidingProgress
import Danmaku.SlidingRows
import Danmaku.Lib.Period
import Danmaku.Lib.Stall
import Danmaku.PxlCounter
import Danmaku.SyncPolarity
import Danmaku.Measurement
import Danmaku.DanmakuOverlay
import Danmaku.VideoTiming
import Danmaku.Resync
import Danmaku.HostPixels
import Danmaku.TestImgFeeder
import Danmaku.EdidLoad
import Danmaku.Lib.Debounce
import Danmaku.SerialInterface
import Danmaku.I2cPort
import Danmaku.I2cSlave
import Danmaku.I2cWaves
import Danmaku.Lib.WireMemory
import Danmaku.EdidProtocol
import Danmaku.EdidBus
import Danmaku.EdidHost
import Danmaku.EdidQuiet
import Danmaku.Lib.Justice
import Danmaku.Fairness
import Danmaku.SessionEnd
import Danmaku.FrameFlow
import Danmaku.Film
import Danmaku.OnScreen
import Danmaku.PixelDataAdapter
import Danmaku.SlidingLife
import Danmaku.StaticLife
