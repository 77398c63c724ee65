import RogiCollector.Ports.RecoveryFence
import RogiCollector.Ports.JournalRotation
import RogiCollector.Ports.SpoolDelivery
import RogiCollector.Ports.SessionAuthority
import RogiCollector.Ports.ArchivePaging
import RogiCollector.Ports.ChannelStatus
import RogiCollector.Ports.JournalRetention
import RogiCollector.Ports.ArchivePlacement
import RogiCollector.Ports.SessionTracking
import RogiCollector.Ports.DonationContent
import RogiCollector.Ports.ChatPrivacy
import RogiCollector.Ports.ChatSpoolAccount
import RogiCollector.Ports.SegmentCodec
import RogiCollector.Ports.SharedAnswers
import RogiCollector.Ports.BroadcastPaging
import RogiCollector.Ports.BatchWriter
import RogiCollector.Ports.Assigner
import RogiCollector.Ports.DiscoverLeader
import RogiCollector.Ports.CoordinatorLeader
import RogiCollector.Ports.WorkerShutdown
import RogiCollector.Ports.ViewerHistory
import RogiCollector.Ports.DiscoveryTrigger
import RogiCollector.Ports.CookieRefresh
import RogiCollector.Ports.TlsRotation
import RogiCollector.Ports.BroadcastSearch
import RogiCollector.Ports.ParquetExport
