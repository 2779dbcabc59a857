import PiPixelController.WriteLog
import PiPixelController.Zcpp.Config
import PiPixelController.Zcpp.Encode
import PiPixelController.Startup.Mapping
import PiPixelController.Zcpp.ConfigRuns
import PiPixelController.Zcpp.Independence
import PiPixelController.CSemantics.Framing
import PiPixelController.Worker.Correctness
import PiPixelController.System.Packets
import PiPixelController.System.History
import PiPixelController.System.Limits
import PiPixelController.System.Capacity
import PiPixelController.System.Pointers
import PiPixelController.System.PixelStores
import PiPixelController.System.Confinement
import PiPixelController.Residue.Acn
import PiPixelController.Residue.Data
import PiPixelController.Residue.Config
import PiPixelController.Residue.Listeners
import PiPixelController.Interleaving.Defs
import PiPixelController.Interleaving.Consistency
import PiPixelController.Interleaving.Atomic
import PiPixelController.Spi.Defs
import PiPixelController.Spi.ChipSelect
import PiPixelController.Spi.Descriptor
import PiPixelController.Spi.Mode
import PiPixelController.Worker.RoundTrip
import PiPixelController.Acn.Encode
import PiPixelController.Acn.Universes
import PiPixelController.System.Addressing
import PiPixelController.Zcpp.Response
import PiPixelController.Zcpp.PacketSize
import PiPixelController.System.Failures
import PiPixelController.CSemantics.Schedules
import PiPixelController.System.Order
import PiPixelController.Sockets.Defs
import PiPixelController.System.Main
import PiPixelController.System.Launch
import PiPixelController.System.Exit
import PiPixelController.System.Requests
import PiPixelController.CSemantics.Bytewise
import PiPixelController.Interleaving.Bytes
import PiPixelController.Interleaving.Tearing
import PiPixelController.Interleaving.Simulation
import PiPixelController.Interleaving.Mixtures
import PiPixelController.Interleaving.Settling
import PiPixelController.Worker.Pacing
import PiPixelController.Zcpp.DataEncode
import PiPixelController.System.Delivery
import PiPixelController.System.Isolation
import PiPixelController.System.Configured
import PiPixelController.System.Traffic
import PiPixelController.System.Output
import PiPixelController.Zcpp.Format
