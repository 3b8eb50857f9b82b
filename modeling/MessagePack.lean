import MessagePack.Wire.Cursor
import MessagePack.Unpack.Source
import MessagePack.Unpack.Skip
import MessagePack.Unpack.LookAhead
import MessagePack.Unpack.Typed
import MessagePack.Unpack.ExtNumber
import MessagePack.Pack.Memory
import MessagePack.Pack.Sink
import MessagePack.Pack.Planned
import MessagePack.Unpack.Stalled
import MessagePack.Text.Quoted
import MessagePack.Number.Shortest
import MessagePack.Time.Calendar
import MessagePack.Main
import MessagePack.Proofs.RegionSlices
import MessagePack.Proofs.InputWindow
import MessagePack.Proofs.WholeReading
import MessagePack.Proofs.FollowedReading
import MessagePack.Proofs.StreamArrival
import MessagePack.Proofs.ItemExtents
import MessagePack.Proofs.PackedBytes
import MessagePack.Proofs.PackingCalls
import MessagePack.Proofs.RoundTrip
import MessagePack.Proofs.AcceptingOutput
import MessagePack.Proofs.SkipWalks
import MessagePack.Proofs.ScanEndings
import MessagePack.Proofs.FailingOutput
import MessagePack.Proofs.CallInvariants
import MessagePack.Proofs.StreamWindow
import MessagePack.Proofs.ItemPrefixes
import MessagePack.Proofs.LookAheadAgreement
import MessagePack.Proofs.StickyFaults
import MessagePack.Proofs.HandlerPlayback
import MessagePack.Proofs.ShortestForms
import MessagePack.Proofs.HandlerMatching
import MessagePack.Proofs.MemoryMeter
import MessagePack.Proofs.ItemRecall
import MessagePack.Proofs.UnmarkedMemory
import MessagePack.Proofs.SeveredStreams
import MessagePack.Proofs.DumpRendering
import MessagePack.Proofs.RoomRequests
import MessagePack.Proofs.OldDialect
import MessagePack.Proofs.DumpScripts
import MessagePack.Proofs.RecordAccounting
import MessagePack.Proofs.UnmarkedStream
import MessagePack.Proofs.DumpTruncation
import MessagePack.Proofs.DumpEndings
import MessagePack.Proofs.DumpAlike
import MessagePack.Proofs.DumpLines
import MessagePack.Proofs.ByteOrders
import MessagePack.Proofs.SkipCounter
import MessagePack.Proofs.TimestampForms
import MessagePack.Proofs.PayloadPieces
import MessagePack.Proofs.FixedRegion
import MessagePack.Proofs.ValueReturn
import MessagePack.Proofs.ClockTimes
import MessagePack.Proofs.TypedIntegers
import MessagePack.Proofs.ExtensionNumbers
import MessagePack.Proofs.QuotedTexts
import MessagePack.Proofs.Extensions
import MessagePack.Proofs.ExactReals
import MessagePack.Proofs.CompactReals
import MessagePack.Proofs.SkipRounds
import MessagePack.Proofs.Compaction
import MessagePack.Proofs.RefillLoop
import MessagePack.Proofs.OutputPositions
import MessagePack.Proofs.InputPositions
import MessagePack.Proofs.FrontDiscard
import MessagePack.Proofs.BufferGrowth
import MessagePack.Proofs.CursorReads
import MessagePack.Proofs.OctetPreviews
