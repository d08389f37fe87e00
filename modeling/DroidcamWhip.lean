import DroidcamWhip.Lib.Runs
import DroidcamWhip.Lib.Custody
import DroidcamWhip.Lib.Bytes
import DroidcamWhip.Lib.AnnexB
import DroidcamWhip.Packet
import DroidcamWhip.Wire
import DroidcamWhip.ReadFrame
import DroidcamWhip.Pipeline
import DroidcamWhip.Ownership
import DroidcamWhip.Backlog
import DroidcamWhip.CatchUp
import DroidcamWhip.Padding
import DroidcamWhip.VideoRequest
import DroidcamWhip.ObsSource
import DroidcamWhip.Connection
import DroidcamWhip.Release
import DroidcamWhip.Lib.Latch
import DroidcamWhip.Frame
import DroidcamWhip.Timestamps
import DroidcamWhip.PlaneLayout
import DroidcamWhip.Inspection
import DroidcamWhip.Conversion
import DroidcamWhip.Growth
import DroidcamWhip.Resolution
import DroidcamWhip.EncoderRtsp
import DroidcamWhip.OutputLife
import DroidcamWhip.Delivery
import DroidcamWhip.Lib.Clock
import DroidcamWhip.EncoderClock
import DroidcamWhip.NetConnect
import DroidcamWhip.Lib.Pipe
import DroidcamWhip.Proxy
import DroidcamWhip.Relay
import DroidcamWhip.Lib.CString
import DroidcamWhip.DeviceList
import DroidcamWhip.SerialSet
import DroidcamWhip.Lib.Strtok
import DroidcamWhip.DoReload
import DroidcamWhip.AdbDevices
import DroidcamWhip.CmdExecute
import DroidcamWhip.QueryCallback
import DroidcamWhip.Responses
import DroidcamWhip.ArgvString
import DroidcamWhip.CommandLine
import DroidcamWhip.OsRelease
import DroidcamWhip.UsbPort
import DroidcamWhip.Preview
import DroidcamWhip.Lib.Names
import DroidcamWhip.MdnsString
import DroidcamWhip.MdnsQuery
import DroidcamWhip.MdnsRecords
import DroidcamWhip.MdnsParse
import DroidcamWhip.MdnsSearch
import DroidcamWhip.MdnsReload
import DroidcamWhip.GuiPipeline
import DroidcamWhip.GuiSession
import DroidcamWhip.ReloadThread
import DroidcamWhip.DecoderInit
import DroidcamWhip.DecoderLife
import DroidcamWhip.Lib.Variant
import DroidcamWhip.Shutdown
import DroidcamWhip.ReleaseWait
import DroidcamWhip.GuiSource
import DroidcamWhip.ProxyLife
import DroidcamWhip.SourceOutput
