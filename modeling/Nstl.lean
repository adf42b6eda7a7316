import Nstl.Core.ByteString
import Nstl.Core.BitStream
import Nstl.Core.ByteMask
import Nstl.Core.Backtracking
import Nstl.Core.GreedyReader
import Nstl.Core.Container
import Nstl.Core.Environ
import Nstl.Core.EscapedList
import Nstl.Core.Framing
import Nstl.Core.Grammar
import Nstl.Core.Heap
import Nstl.Core.KeyedOrder
import Nstl.Core.SortedMap
import Nstl.Core.Memory
import Nstl.Core.Narrowing
import Nstl.Core.OptionMap
import Nstl.Core.Ownership
import Nstl.Core.Program
import Nstl.Core.Repack
import Nstl.Core.Rounding
import Nstl.Core.Tailing
import Nstl.Core.Transition
import Nstl.Core.Admission
import Nstl.Core.Fairness
import Nstl.Core.FirstWins
import Nstl.Core.Lifecycle
import Nstl.Core.Mutex
import Nstl.Core.Wakeup
import Nstl.Csv.Line
import Nstl.Csv.Reader
import Nstl.Csv.FileRoundTrip
import Nstl.Csv.Calls
import Nstl.Csv.LineCounter
import Nstl.Csv.Dictionary
import Nstl.Dns.Message
import Nstl.Dns.SvcbParams
import Nstl.Dns.Client
import Nstl.Dns.QueryLoop
import Nstl.Dns.NameCompression
import Nstl.Dns.Names
import Nstl.Dns.Txt
import Nstl.Net.IpRange
import Nstl.Net.IpRangeLess
import Nstl.Net.IpText
import Nstl.Net.TextInput
import Nstl.Net.RangeGrammar
import Nstl.Net.RangeText
import Nstl.Encoding.Base64
import Nstl.Encoding.Base64Bounds
import Nstl.Hash.Backends
import Nstl.Hash.Agreement
import Nstl.Hash.File
import Nstl.Hash.Text
import Nstl.Http.Client
import Nstl.Http.Effects
import Nstl.Http.Requests
import Nstl.Http.Moves
import Nstl.Http.Url
import Nstl.Http.UrlGrammar
import Nstl.Http.UrlConformance
import Nstl.FileTrigger.Follower
import Nstl.FileTrigger.Watcher
import Nstl.FileTrigger.Linux
import Nstl.FileTrigger.Apple
import Nstl.FileTrigger.Win32
import Nstl.Log.Ostream
import Nstl.Log.OstreamSafety
import Nstl.Log.Terminate
import Nstl.Log.Stack
import Nstl.Log.Delivery
import Nstl.Log.Throttle
import Nstl.Log.QueueSize
import Nstl.Raii.CustomRaii
import Nstl.Raii.TempFile
import Nstl.Raii.EnvVar
import Nstl.Raii.TempDir
import Nstl.DeadLock.Checker
import Nstl.DeadLock.Stop
import Nstl.Runner.Machine
import Nstl.Runner.Lives
import Nstl.Runner.Reaping
import Nstl.Runner.ExitCode
import Nstl.Runner.Masks
import Nstl.Runner.Pipes
import Nstl.Runner.Macos
import Nstl.Runner.MacosExit
import Nstl.Runner.Windows
import Nstl.Runner.WindowsExit
import Nstl.Runner.Environment
import Nstl.Signal.Barrier
import Nstl.Signal.Descriptors
import Nstl.Signal.Delivery
import Nstl.Signal.Portable
import Nstl.Vector.Methods
import Nstl.Vector.Refinement
import Nstl.Vector.Runs
import Nstl.Vector.Aliasing
import Nstl.Args.ArgsEditor
import Nstl.Text.SplitView
import Nstl.Text.Classification
import Nstl.Text.RangePrint
import Nstl.Text.Parse
import Nstl.Text.RoBuffer
import Nstl.Math.Round
import Nstl.Time.CTimezone
