import Cocoapuffs.Trace
import Cocoapuffs.FourPhase
import Cocoapuffs.LaneMemory
import Cocoapuffs.Wishbone
import Cocoapuffs.WbCdc
import Cocoapuffs.WbCdcTransfer
import Cocoapuffs.TileLink
import Cocoapuffs.TlConverter
import Cocoapuffs.TlSequential
import Cocoapuffs.TlRefinement
import Cocoapuffs.TlRun
import Cocoapuffs.TlUh2wblite
import Cocoapuffs.MuntjacBridge
import Cocoapuffs.TlDelivery
import Cocoapuffs.Ahb
import Cocoapuffs.AhbBridge
import Cocoapuffs.AhbBridgeTransfer
import Cocoapuffs.AhbBridgeBus
import Cocoapuffs.WbBram
import Cocoapuffs.WbMux
import Cocoapuffs.TlPort
import Cocoapuffs.Tl2wb
import Cocoapuffs.TlEthernet
import Cocoapuffs.TlPortRequests
import Cocoapuffs.Axi
import Cocoapuffs.Wb2axiSimple
import Cocoapuffs.WideWbDdr3
import Cocoapuffs.Pic
import Cocoapuffs.Program
import Cocoapuffs.Sdcard
import Cocoapuffs.SdcardWblite
import Cocoapuffs.SdcardDriver
import Cocoapuffs.SdcardBlocks
import Cocoapuffs.Perinput
import Cocoapuffs.AhbRecorder
import Cocoapuffs.AhbTrace
import Cocoapuffs.Bintomemh
import Cocoapuffs.TlCommands
import Cocoapuffs.TlRelease
import Cocoapuffs.MuntjacRequests
import Cocoapuffs.TlAgreement
import Cocoapuffs.Uart
import Cocoapuffs.TlBursts
import Cocoapuffs.TlAtomics
import Cocoapuffs.WbMuxFairness
import Cocoapuffs.AhbBram
import Cocoapuffs.PicPulses
import Cocoapuffs.WideWbMemory
import Cocoapuffs.SpiExchange
import Cocoapuffs.Timer
import Cocoapuffs.SdcardFrames
import Cocoapuffs.SdcardStream
import Cocoapuffs.UartTx
import Cocoapuffs.Debouncer
import Cocoapuffs.UartRing
import Cocoapuffs.IhexUpload
import Cocoapuffs.Memtest
import Cocoapuffs.WbUart
import Cocoapuffs.AhbDecode
import Cocoapuffs.WbliteMem
import Cocoapuffs.Occurrence
import Cocoapuffs.UartCheck
import Cocoapuffs.UartGetline
import Cocoapuffs.TraceSerial
import Cocoapuffs.WbFabric
import Cocoapuffs.WbMuxShared
import Cocoapuffs.WbMuxBram
import Cocoapuffs.Rv32Ddr3exec
import Cocoapuffs.RiscV
import Cocoapuffs.Rv32Ddr3execInterrupt
import Cocoapuffs.NoelvPrint
import Cocoapuffs.NoelvMemtest
import Cocoapuffs.NoelvServBoot
import Cocoapuffs.ClockEdges
import Cocoapuffs.NoelvRam
