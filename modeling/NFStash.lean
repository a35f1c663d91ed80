import NFStash.Lib.Buffers
import NFStash.Lib.Counters
import NFStash.Lib.CString
import NFStash.Lib.Floats
import NFStash.Lib.Grouping
import NFStash.Lib.Labels
import NFStash.Lib.Levels
import NFStash.Lib.LogLinear
import NFStash.Lib.Loops
import NFStash.Lib.Orders
import NFStash.Lib.Paging
import NFStash.Lib.Ranks
import NFStash.Lib.Running
import NFStash.Lib.Search
import NFStash.Lib.Utf8
import NFStash.Lib.Windows
import NFStash.Lib.Words
import NFStash.Types
import NFStash.Options
import NFStash.OptionOrder
import NFStash.Rpc
import NFStash.RpcSockets
import NFStash.ClearLocks
import NFStash.Times
import NFStash.Timespec
import NFStash.Util
import NFStash.ReverseFqdn
import NFStash.ParseFh
import NFStash.FilehandleHex
import NFStash.ParseFhGroup
import NFStash.MakeTarget
import NFStash.MakeTargetList
import NFStash.MakeTargetNames
import NFStash.Ls
import NFStash.Readdirplus
import NFStash.LsReplies
import NFStash.LsSuccess
import NFStash.LsSlash
import NFStash.LsNesting
import NFStash.LsPolling
import NFStash.LsTimes
import NFStash.LsOptions
import NFStash.LsSummary
import NFStash.LsPerms
import NFStash.Cat
import NFStash.CatReads
import NFStash.Ping
import NFStash.PingSummary
import NFStash.PingIntervals
import NFStash.PingTotals
import NFStash.PingTimes
import NFStash.PingReconnect
import NFStash.PingOptions
import NFStash.Mount
import NFStash.MountArgs
import NFStash.MountPolling
import NFStash.MountRequests
import NFStash.MountTimes
import NFStash.MountLoss
import NFStash.MountOptions
import NFStash.MountOrder
import NFStash.PingOrder
import NFStash.MountHandles
import NFStash.MountReplies
import NFStash.MountStatus
import NFStash.Copies
import NFStash.Df
import NFStash.DfRounds
import NFStash.Human
import NFStash.ReplaceChar
import NFStash.Connecting
import NFStash.Lock
import NFStash.LockStatus
import NFStash.StatusLabels
import NFStash.PollingPeriod
import NFStash.RoundSleep
import NFStash.PingWait
import NFStash.PingAdmission
import NFStash.LongListing
import NFStash.DfWidths
import NFStash.FixedFields
import NFStash.DfRows
import NFStash.XdrCopy
import NFStash.Hdr
import NFStash.HdrClasses
import NFStash.HdrValues
import NFStash.HdrPercentages
import NFStash.HdrTable
import NFStash.PingQuantiles
import NFStash.PingTables
import NFStash.Smokeping
import NFStash.Parson
import NFStash.ParsonStrings
import NFStash.ParsonEscapes
import NFStash.ParsonUtf8
import NFStash.ParsonParse
import NFStash.ParsonText
import NFStash.ParsonRoundTrip
import NFStash.JsonObjects
import NFStash.JsonLines
import NFStash.JsonText
import NFStash.LsPipeline
import NFStash.LsParson
import NFStash.CatParson
