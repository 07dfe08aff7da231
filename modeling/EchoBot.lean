import EchoBot.Stream.History
import EchoBot.Stream.Lines
import EchoBot.Stream.Framer
import EchoBot.Stream.Fill
import EchoBot.Stream.Bucket
import EchoBot.Memory.Frame
import EchoBot.Memory.CString
import EchoBot.Memory.Decimal
import EchoBot.Program.While
import EchoBot.Program.Response
import EchoBot.Protocol.StopAndWait
import EchoBot.Zephyr.Ring
import EchoBot.Zephyr.Kernel
import EchoBot.MyUartPeripheralB.Driver
import EchoBot.MyUartPeripheralB.Steps
import EchoBot.MyUartPeripheralB.Receive
import EchoBot.MyUartPeripheralB.Echo
import EchoBot.MyUartPeripheralB.Transmit
import EchoBot.MyUartPeripheralB.StopAndWait
import EchoBot.MyUartPeripheralB.Refinement
import EchoBot.MyUartPeripheralB.Progress
import EchoBot.MyUartPeripheralB.Wakeup
import EchoBot.MyUartPeripheralB.Session
import EchoBot.MyUartPeripheralB.ItemSize
import EchoBot.MyUartPeripheralB.Termination
import EchoBot.MyUartPeripheralB.Initialisation
import EchoBot.MyUartPeripheral.Driver
import EchoBot.MyUartPeripheral.Receive
import EchoBot.MyUartPeripheral.RoundTrip
import EchoBot.MyUartPeripheral.Setters
import EchoBot.MyUartPeripheral.Bounded
import EchoBot.MyUartPeripheral.Application
import EchoBot.Lossless
import EchoBot.HttpGet.Exchange
import EchoBot.HttpGet.Lifecycle
import EchoBot.SocketDumbHttp.Request
import EchoBot.SocketDumbHttp.Connection
import EchoBot.SocketDumbHttp.Response
import EchoBot.SocketDumbHttp.Service
import EchoBot.MainApp.Queue
import EchoBot.MainApp.Delivery
import EchoBot.MainEchoBot.SerialCb
import EchoBot.MainEchoBot.ThreadEchoBot
import EchoBot.MainEchoBot.Progress
import EchoBot.MainCdcAcm.Echo
import EchoBot.MainCdcAcm.Handler
import EchoBot.MainCdcAcm.Startup
import EchoBot.MainCdcAcmComposite.Bridge
import EchoBot.MainCdcAcmComposite.Conservation
import EchoBot.MainCdcAcmComposite.Handler
import EchoBot.MainCdcAcmComposite.Startup
import EchoBot.MyI2cMcp9808.Codec
import EchoBot.MyI2cMcp9808.Sample
import EchoBot.MyI2cMcp9808.Registers
import EchoBot.MainMcp9808.Thread
