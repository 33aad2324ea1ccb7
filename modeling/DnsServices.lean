import DnsServices.ChunkedParser
import DnsServices.PrefixCode
import DnsServices.Bytes
import DnsServices.H3Varint
import DnsServices.H3FrameParser
import DnsServices.HuffmanTable
import DnsServices.Huffman
import DnsServices.QpackStatic
import DnsServices.Qpack
import DnsServices.QpackRoundTrip
import DnsServices.H3Request
import DnsServices.QpackForms
import DnsServices.Checked
import DnsServices.QpackSafety
import DnsServices.QpackPrefixInt
import DnsServices.H3
import DnsServices.H3Response
import DnsServices.H3ServerUni
import DnsServices.H3ResponseEnd
import DnsServices.H3Goaway
import DnsServices.Apportion
import DnsServices.Seqlock
import DnsServices.Shared
import DnsServices.FleetSplit
import DnsServices.ScoreSlot
import DnsServices.ResolvePage
import DnsServices.Dns
import DnsServices.DnsMessage
import DnsServices.DnsServfail
import DnsServices.DnsPadding
import DnsServices.DnsPaddingMeaning
import DnsServices.Worker
import DnsServices.WorkerStep
import DnsServices.WorkerMoves
import DnsServices.WorkerQuality
import DnsServices.WorkerPlacement
import DnsServices.WorkerCustody
import DnsServices.WorkerLoss
import DnsServices.WorkerRequests
import DnsServices.WorkerReplies
import DnsServices.LexCompare
import DnsServices.MdnsRecord
import DnsServices.MdnsTiebreak
import DnsServices.Runs
import DnsServices.MdnsWatch
import DnsServices.MdnsPacket
import DnsServices.MdnsGoodbye
import DnsServices.MdnsReplace
import DnsServices.MdnsNegative
import DnsServices.MdnsKnown
import DnsServices.MdnsAnswers
import DnsServices.Cells
import DnsServices.MdnsMemory
import DnsServices.MdnsLegacy
import DnsServices.KeyedItems
import DnsServices.Supervisor
import DnsServices.StableSort
import DnsServices.Weights
import DnsServices.WeightsSummary
import DnsServices.Candidates
import DnsServices.Exploration
import DnsServices.ScorePage
import DnsServices.WorkerFrame
import DnsServices.WorkerLink
import DnsServices.WorkerScore
import DnsServices.WorkerIds
import DnsServices.Base64url
import DnsServices.WorkerGet
import DnsServices.WorkerPost
import DnsServices.WorkerQueue
import DnsServices.WorkerTimeout
import DnsServices.WorkerMigration
import DnsServices.WorkerSpacing
import DnsServices.Bootstrap
import DnsServices.AsyncResolve
import DnsServices.BootstrapAgreement
import DnsServices.Text
import DnsServices.CpuMask
import DnsServices.DefaultRoute
import DnsServices.Url
import DnsServices.MdnsLink
import DnsServices.MdnsProbeTiming
import DnsServices.SupervisorLoop
import DnsServices.SupervisorTiming
import DnsServices.WorkerLoop
import DnsServices.WorkerDelivery
import DnsServices.OrderedMap
import DnsServices.WorkerPlan
import DnsServices.Fleet
import DnsServices.FleetAdoption
import DnsServices.QuicReceive
import DnsServices.MdnsListener
import DnsServices.MdnsRemembering
