import ShGateway.BootHandover
import ShGateway.CanReceive
import ShGateway.CanTxCount
import ShGateway.ConfigBounds
import ShGateway.ConfigRefusal
import ShGateway.FieldCoverage
import ShGateway.FwInBounds
import ShGateway.FwReads
import ShGateway.GatewayWrite
import ShGateway.MqttRuns
import ShGateway.Lib.Runs
import ShGateway.RetMem
import ShGateway.SessionIsolation
import ShGateway.SignedImage
import ShGateway.SockSrv
import ShGateway.TftpFailure
import ShGateway.TftpRead
import ShGateway.SignCrc
import ShGateway.FlashSession
import ShGateway.RouteFreshness
import ShGateway.FieldScan
import ShGateway.FwInfoRuns
import ShGateway.VersionNumber
import ShGateway.RouteLine
import ShGateway.RouteFrames
import ShGateway.SockQueue
import ShGateway.SockRuns
import ShGateway.NodeNames
import ShGateway.Lib.Scan
import ShGateway.TftpRequest
import ShGateway.NodeRead
import ShGateway.NodeWrite
import ShGateway.CanBitrate
import ShGateway.LssActivation
import ShGateway.CanErrors
import ShGateway.EmcyHistory
import ShGateway.ConsolePrint
import ShGateway.ConsoleRequest
import ShGateway.Lib.CountedLoop
import ShGateway.SdoDump
import ShGateway.Fram
import ShGateway.Lib.Since
import ShGateway.EmeterPulses
import ShGateway.Lib.PollLoop
import ShGateway.SdoTransfer
import ShGateway.SdoTimeout
import ShGateway.LoadSwitcher
import ShGateway.PoeSwitcher
import ShGateway.Lib.Calendar
import ShGateway.Rtc
import ShGateway.Lib.RegisterBits
import ShGateway.EthLink
import ShGateway.Lib.Heap
import ShGateway.SockCli
import ShGateway.Aht21
import ShGateway.Debounce
import ShGateway.Prof
import ShGateway.SignMain
import ShGateway.Lib.ExchangeSort
import ShGateway.EmeterBaseline
import ShGateway.CoOdHeaders
import ShGateway.SafeStrings
import ShGateway.RangeGuards
import ShGateway.I2cReceive
import ShGateway.UpdateBoot
import ShGateway.I2cTransmit
import ShGateway.Lib.Varint
import ShGateway.MqttOutput
import ShGateway.MqttParser
import ShGateway.Lib.LinkedChain
import ShGateway.Lib.DeltaQueue
import ShGateway.MqttRequests
import ShGateway.MqttIncoming
import ShGateway.Crc16
import ShGateway.Lib.BinarySearch
import ShGateway.Lib.ByteBuffer
import ShGateway.Lib.Outcome
import ShGateway.Lib.Ram
import ShGateway.OdInterface
import ShGateway.SdoServer
import ShGateway.SdoServerRuns
import ShGateway.SdoServerIdle
