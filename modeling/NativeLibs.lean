import NativeLibs.Http.Message
import NativeLibs.Http1.Session
import NativeLibs.Http1.Sending
import NativeLibs.Library.Runs
import NativeLibs.Http1.Reassembly
import NativeLibs.Http1.SendEffects
import NativeLibs.Http1.ServerRun
import NativeLibs.Http1.ServerOrder
import NativeLibs.Http1.ClientRun
import NativeLibs.Http1.ContentLength
import NativeLibs.Cidr.Range
import NativeLibs.Cidr.Exclude
import NativeLibs.Cidr.RangeSet
import NativeLibs.Library.NodeList
import NativeLibs.Cache.Lru
import NativeLibs.Cache.LruRun
import NativeLibs.Cache.LruTimeout
import NativeLibs.Cache.Lease
import NativeLibs.Cache.LruFreshness
import NativeLibs.Http.Endpoint
import NativeLibs.Http3.Session
import NativeLibs.Http3.Body
import NativeLibs.Http2.Body
import NativeLibs.Http2.Events
import NativeLibs.Http.RequestIterator
import NativeLibs.Http.RequestTransfer
import NativeLibs.Parallel.SharedState
import NativeLibs.Parallel.Continuation
import NativeLibs.Routing.Agreement
import NativeLibs.Library.Slots
import NativeLibs.Log.Rotation
import NativeLibs.Library.Sextets
import NativeLibs.Text.Base64
import NativeLibs.Cache.Timeout
import NativeLibs.Cidr.Decomposition
import NativeLibs.Cidr.Parse
import NativeLibs.Library.Chunked
import NativeLibs.Http1.BodilessResponses
import NativeLibs.Http1.FailedSends
import NativeLibs.Http1.Wire
import NativeLibs.Http2.SubmitResult
import NativeLibs.Library.DotSegments
import NativeLibs.Text.Url
import NativeLibs.Library.Lines
import NativeLibs.Text.Lines
import NativeLibs.Http3.Callbacks
import NativeLibs.Http3.StreamIds
import NativeLibs.Http3.SendCapacity
import NativeLibs.Http3.Connection
import NativeLibs.Http3.Closing
import NativeLibs.Http.HeaderValues
import NativeLibs.Http.ResponseIterator
import NativeLibs.Library.FirstDifference
import NativeLibs.Text.Compare
import NativeLibs.Net.HostPort
import NativeLibs.Net.SocketAddress
import NativeLibs.Library.KeyOrder
import NativeLibs.Net.Comparison
import NativeLibs.Net.AddressText
import NativeLibs.Net.FamilyCast
import NativeLibs.Http3.Responses
import NativeLibs.Library.Splitting
import NativeLibs.Library.Surrogates
import NativeLibs.Library.Synchronizing
import NativeLibs.Text.Base64Accept
import NativeLibs.Text.Cesu8
import NativeLibs.Text.Cesu8Output
import NativeLibs.Text.Cesu8Range
import NativeLibs.Text.SplitBy
import NativeLibs.Text.WordWrap
import NativeLibs.Library.ShellWords
import NativeLibs.Log.SizeLimit
import NativeLibs.Routing.Defaults
import NativeLibs.Routing.Monitor
import NativeLibs.Routing.Resolver
import NativeLibs.Text.Domain
import NativeLibs.Text.Guid
import NativeLibs.Text.GuidText
import NativeLibs.Text.Regex
import NativeLibs.Text.RegexMatch
import NativeLibs.Text.ShellEscape
import NativeLibs.Text.WrapWords
import NativeLibs.Library.SignedNumbers
import NativeLibs.Text.Find
import NativeLibs.Text.Hex
import NativeLibs.Time.Format
import NativeLibs.Time.Parts
import NativeLibs.Utils.SwapRemoveIf
import NativeLibs.Net.Firewall
import NativeLibs.Net.FirewallPolicy
import NativeLibs.Text.FixedSet
import NativeLibs.Text.FixedSetWords
