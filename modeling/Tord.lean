import Tord.Lib.Transition
import Tord.Lib.Interaction
import Tord.Lib.Cost
import Tord.Lib.Text
import Tord.Lib.Numeral
import Tord.Lib.Layout
import Tord.Lib.Grid
import Tord.Lib.SortedMap
import Tord.Lib.Rounding
import Tord.Lib.Binary32
import Tord.Error
import Tord.Net
import Tord.Addresses
import Tord.Metrics
import Tord.Streams
import Tord.StreamsHistory
import Tord.Tor
import Tord.Socks.Server
import Tord.Socks.Wire
import Tord.Socks.Handshake
import Tord.Socks.FailClosed
import Tord.Socks.Whole
import Tord.Socks.Refusals
import Tord.Socks.Causes
import Tord.Socks.ReplyCodes
import Tord.Socks.Usernames
import Tord.Socks.Client
import Tord.Socks.Turns
import Tord.Socks.Metered
import Tord.Socks.Connections
import Tord.Socks.Dialogue
import Tord.Socks.Accounting
import Tord.Socks.Budget
import Tord.Socks.Rows
import Tord.Socks.Independence
import Tord.Socks.ByteCounts
import Tord.Socks.Ledger
import Tord.Socks.Isolation
import Tord.Socks.Requests
import Tord.Socks.Listing
import Tord.Main
import Tord.Shutdown
import Tord.Json
import Tord.Format
import Tord.Columns
import Tord.KeyValue
import Tord.HumanBytes
import Tord.Control
import Tord.Table
import Tord.Query
import Tord.Process
import Tord.Screen
import Tord.Availability
import Tord.Following
