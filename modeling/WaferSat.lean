import WaferSat.Camera.Config
import WaferSat.Camera.History
import WaferSat.Camera.Received
import WaferSat.Camera.Timeout
import WaferSat.Commands.ImageRgb
import WaferSat.Commands.Membench
import WaferSat.Commands.OneCard
import WaferSat.DcmiDma.Overrun
import WaferSat.Image.ShortWrites
import WaferSat.MainLoop.Card
import WaferSat.MainLoop.Debounce
import WaferSat.MainLoop.Response
import WaferSat.MainLoop.Shell
import WaferSat.MemcpyDma
import WaferSat.Ptime.Gregorian
import WaferSat.Ptime.Order
import WaferSat.Ptime.Rtc
import WaferSat.Telemetry.Chip
import WaferSat.Telemetry.Pressure
import WaferSat.Telemetry.PressureAccuracy
import WaferSat.Telemetry.SharedBus
import WaferSat.Telemetry.Thermometer
import WaferSat.Tree.Command
