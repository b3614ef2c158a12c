import InfoWorkshop.Lib.Steps
import InfoWorkshop.Lib.Ring
import InfoWorkshop.Lib.Fifo
import InfoWorkshop.Posix.QueueWakeup
import InfoWorkshop.Posix.QueueTimeout
import InfoWorkshop.Posix.QueueHeap
import InfoWorkshop.Posix.SemaphoreTimeout
import InfoWorkshop.Core.Service
import InfoWorkshop.Service.Delivery
import InfoWorkshop.Console.NetConsole
import InfoWorkshop.Console.ParseInPlace
import InfoWorkshop.Console.HandlerResult
import InfoWorkshop.Esp32.Ticks
import InfoWorkshop.Esp32.WifiStation
import InfoWorkshop.Cmake.Common
import InfoWorkshop.Service.Single
import InfoWorkshop.Service.Termination
import InfoWorkshop.Service.Trace
import InfoWorkshop.Service.Overflow
import InfoWorkshop.Service.TwoAdapters
import InfoWorkshop.Posix.TaskRegistry
import InfoWorkshop.Posix.Ndebug
import InfoWorkshop.Cmake.FirmwareVersion
import InfoWorkshop.Console.ResponseFrame
import InfoWorkshop.Scripts.BumpVersion
import InfoWorkshop.Posix.DeadlineExact
import InfoWorkshop.Console.ServerAnswers
import InfoWorkshop.Service.NetworkConsole
import InfoWorkshop.Esp32.Hmi
import InfoWorkshop.Esp32.CoreService
import InfoWorkshop.Cmake.Release
import InfoWorkshop.Service.Join
import InfoWorkshop.Service.Calls
import InfoWorkshop.Esp32.WifiAttempts
import InfoWorkshop.Emulator.Main
import InfoWorkshop.Console.CommandLine
