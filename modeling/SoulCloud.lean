import SoulCloud.Lib.Lts
import SoulCloud.Rpc
import SoulCloud.Device
import SoulCloud.Lib.Tokens
import SoulCloud.Ownership
import SoulCloud.Delivery
import SoulCloud.Reassembly
import SoulCloud.Answers
import SoulCloud.Calls
import SoulCloud.Freshness
import SoulCloud.Lib.Word
import SoulCloud.Ota
import SoulCloud.Verification
import SoulCloud.Download
import SoulCloud.Cancel
import SoulCloud.Json.Writer
import SoulCloud.Status
import SoulCloud.Client
import SoulCloud.Connection
import SoulCloud.Json.Text
import SoulCloud.Confirmation
import SoulCloud.Json.Buffer
import SoulCloud.Credentials
import SoulCloud.Lib.Forest
import SoulCloud.Lib.Zipper
import SoulCloud.Json.Jsmn
import SoulCloud.Json.Reader
import SoulCloud.Json.Lexemes
import SoulCloud.Json.TokenTree
import SoulCloud.Json.Lookup
import SoulCloud.Json.Accepted
import SoulCloud.Json.Document
import SoulCloud.Json.WellFormed
import SoulCloud.Json.Tolerated
import SoulCloud.Json.Written
import SoulCloud.Json.RoundTrip
import SoulCloud.Handle
import SoulCloud.Codec
import SoulCloud.Dispatch
import SoulCloud.Builtins
import SoulCloud.Retry
import SoulCloud.Stop
import SoulCloud.Json.Meant
import SoulCloud.Tags
import SoulCloud.LogConfig
import SoulCloud.LogLevels
import SoulCloud.CancelRequest
import SoulCloud.Shell
import SoulCloud.ShellAnswer
import SoulCloud.Wakeup
import SoulCloud.Json.Strings
import SoulCloud.LogUpload
import SoulCloud.LogBatch
import SoulCloud.LogUplink
import SoulCloud.LogDelivery
import SoulCloud.LogDrops
import SoulCloud.Json.Decoding
import SoulCloud.Json.Keys
import SoulCloud.Reboot
import SoulCloud.Topics
import SoulCloud.ShellTable
import SoulCloud.Exchanges
import SoulCloud.Reports
import SoulCloud.LogClosing
import SoulCloud.LogRecords
import SoulCloud.Enrollment
import SoulCloud.Outcome
import SoulCloud.Json.Charset
import SoulCloud.Truncation
import SoulCloud.Heartbeat
import SoulCloud.Events
import SoulCloud.ShellOutput
import SoulCloud.Json.Reuse
import SoulCloud.Server
import SoulCloud.FirstConnection
import SoulCloud.PublishLock
import SoulCloud.Meaning
import SoulCloud.Lifecycle
import SoulCloud.Rest
import SoulCloud.LogFlush
import SoulCloud.ReadBack
import SoulCloud.Methods
import SoulCloud.AnswersRead
