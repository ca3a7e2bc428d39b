import K1de.Lib.Fallible
import K1de.Lib.Vec
import K1de.Lib.Grid
import K1de.Lib.Decimal
import K1de.Lib.Text
import K1de.Lib.Effect
import K1de.Lib.Protocol
import K1de.Lib.Ticker
import K1de.Lib.FdTable
import K1de.Lib.Queue
import K1de.Lib.Paint
import K1de.Lib.Raster
import K1de.Lib.Delimiter
import K1de.Terminal.Colour
import K1de.Terminal.Model
import K1de.Terminal.Invariant
import K1de.Terminal.Safety
import K1de.Terminal.Reach
import K1de.Terminal.Tokens
import K1de.Terminal.Csi
import K1de.Terminal.Numbers
import K1de.Terminal.Sgr
import K1de.Terminal.Canvas
import K1de.Terminal.Complete
import K1de.Terminal.Resync
import K1de.Terminal.Nearest
import K1de.Terminal.Params
import K1de.Terminal.Strings
import K1de.Terminal.Erase
import K1de.Terminal.Layout
import K1de.Terminal.Repaint
import K1de.Drm.Model
import K1de.Drm.Spec
import K1de.Drm.Calls
import K1de.Drm.Ledger
import K1de.Drm.Probe
import K1de.Drm.Refresh
import K1de.Drm.Crtc
import K1de.Drm.Protocol
import K1de.Drm.Life
import K1de.Input.Model
import K1de.Input.Modifiers
import K1de.Input.Hotplug
import K1de.Input.Typing
import K1de.Render.Model
import K1de.Render.Spec
import K1de.Render.Pixels
import K1de.Render.Font
import K1de.Render.Trace
import K1de.Render.Bounds
import K1de.Render.Saver
import K1de.Render.SaverPixels
import K1de.Main.Model
import K1de.Main.Spec
import K1de.Main.Geometry
import K1de.Main.Shell
import K1de.Main.Screen
import K1de.Main.Keys
import K1de.Main.Poll
import K1de.Main.Timers
import K1de.Main.Keyboards
import K1de.Main.Console
import K1de.Main.Streams
import K1de.Main.Devices
import K1de.Main.Queues
import K1de.Main.Safety
import K1de.Main.Follow
import K1de.Main.Session
import K1de.Main.Process
import K1de.Main.Child
