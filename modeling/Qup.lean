import Qup.Foundation.Transition
import Qup.Core.Message
import Qup.Core.ReadFrame
import Qup.Client.Timeout
import Qup.Embassy.Conformance
import Qup.Embassy.Move
import Qup.Embassy.Alignment
import Qup.EndToEnd.Calls
import Qup.Core.Grammar
import Qup.Embassy.TypedKey
import Qup.Embassy.Waiting
import Qup.Embassy.WaitFor
import Qup.Embassy.Serves
import Qup.Embassy.Streaming
import Qup.Embassy.Wakeups
import Qup.TestNode.Window
import Qup.TestNode.Convergence
import Qup.TestNode.Freshness
import Qup.TestNode.Laws
import Qup.Tui.Changes
import Qup.Tui.Writes
import Qup.Tui.Modal
import Qup.Core.Corruption
import Qup.Core.CapsIter
import Qup.Client.Write
import Qup.Embassy.Codec
import Qup.EndToEnd.Keytab
import Qup.EndToEnd.Watch
import Qup.Embassy.StreamValidator
import Qup.EndToEnd.Named
import Qup.EndToEnd.Console
import Qup.EndToEnd.Atomic
import Qup.EndToEnd.Connected
import Qup.EndToEnd.Following
import Qup.EndToEnd.Repl
import Qup.Cli.Commands
import Qup.EndToEnd.Screen
