import ProfinetIo.ByteMemory
import ProfinetIo.WhileLoop
import ProfinetIo.ExtractBlocks
import ProfinetIo.ExtractBlocksWalk
import ProfinetIo.ExtractBlocksBounds
import ProfinetIo.DcpBlocks
import ProfinetIo.ExtractBlocksExactness
import ProfinetIo.PrepareBlock
import ProfinetIo.WholeBlocks
import ProfinetIo.BlockRoundTrip
import ProfinetIo.BlockSequences
import ProfinetIo.CStrings
import ProfinetIo.AdjacentStrings
import ProfinetIo.PnioPackets
import ProfinetIo.MqttMsgHdlr
import ProfinetIo.RequestFields
import ProfinetIo.ResponseText
import ProfinetIo.HexTokens
import ProfinetIo.WriteRequests
import ProfinetIo.DecimalStrings
import ProfinetIo.RequestAddressing
import ProfinetIo.RequestValidation
import ProfinetIo.DeviceTables
import ProfinetIo.RecieveFrames
import ProfinetIo.FrameAcceptance
import ProfinetIo.Registration
import ProfinetIo.DistinctItems
import ProfinetIo.MacTable
import ProfinetIo.AddNewDevice
import ProfinetIo.SerialPool
import ProfinetIo.DeviceList
import ProfinetIo.AddressAllocation
import ProfinetIo.DeviceLookups
import ProfinetIo.SetIpConfig
import ProfinetIo.IpConfigRoundTrip
import ProfinetIo.MqttSub
import ProfinetIo.Subscription
import ProfinetIo.BoundedWrites
import ProfinetIo.PaddingLoop
import ProfinetIo.ParserTermination
import ProfinetIo.ParserPasses
import ProfinetIo.MalformedPayloads
import ProfinetIo.PayloadBytes
import ProfinetIo.DescriptorTable
import ProfinetIo.ResponseReports
import ProfinetIo.ResponseMatching
import ProfinetIo.SocketLeaks
import ProfinetIo.AddressRequests
import ProfinetIo.MultiByteWrites
import ProfinetIo.OwnAddress
import ProfinetIo.TokenStores
import ProfinetIo.DeviceSearch
import ProfinetIo.FailureExit
import ProfinetIo.ConfigFiles
import ProfinetIo.MqttPub
import ProfinetIo.RecordCodecs
import ProfinetIo.DatagramFormat
import ProfinetIo.Gateway
import ProfinetIo.FrameFormat
import ProfinetIo.InterleavedRuns
import ProfinetIo.DcpRequests
import ProfinetIo.DescriptorLimits
import ProfinetIo.Supervisor
import ProfinetIo.Silence
import ProfinetIo.SerialBooks
import ProfinetIo.DeviceBook
import ProfinetIo.UniqueReading
import ProfinetIo.DeviceListing
import ProfinetIo.Reconnects
import ProfinetIo.PublishWait
import ProfinetIo.KeyedRecords
import ProfinetIo.StationRecords
import ProfinetIo.MessageLoop
import ProfinetIo.MemoryScripts
import ProfinetIo.HeapUse
import ProfinetIo.MqttService
