import K210Firmware.Touch.Response
import K210Firmware.Touch.ReadBuffer
import K210Firmware.Touch.Teardown
import K210Firmware.Pin.Exclusive
import K210Firmware.Pin.Freeing
import K210Firmware.Display.Flush
import K210Firmware.Display.FrameRate
import K210Firmware.Display.Drawing
import K210Firmware.Camera.Tearing
import K210Firmware.CpuUsage.Clock
import K210Firmware.CpuUsage.Reaping
import K210Firmware.CpuUsage.Foreign
import K210Firmware.CpuUsage.Garbage
import K210Firmware.Gui.Ownership
import K210Firmware.Gui.Refresh
import K210Firmware.Gui.Charts
import K210Firmware.Gui.PageClose
import K210Firmware.Terminal.Closing
import K210Firmware.Terminal.Output
import K210Firmware.Terminal.Keys
import K210Firmware.Display.Overlap
import K210Firmware.Display.RectUpdate
import K210Firmware.Gui.AppTable
import K210Firmware.Spi.Outcome
import K210Firmware.Kernel.Accounts
import K210Firmware.Log.Notices
import K210Firmware.Terminal.RingTransfer
import K210Firmware.Shell.Display
import K210Firmware.Shell.Paths
import K210Firmware.Shell.Typing
import K210Firmware.Keys.Gestures
