import Keystroke.Main
import Keystroke.Proofs.ControlSequence.Grammar
import Keystroke.Proofs.ControlSequence.Report
import Keystroke.Proofs.Decoder.Chunking
import Keystroke.Proofs.Decoder.Factorisation
import Keystroke.Proofs.Decoder.Pending
import Keystroke.Proofs.Decoder.Text
import Keystroke.Proofs.EventLoop.Idle
import Keystroke.Proofs.Session.Flushing
import Keystroke.Proofs.Session.Lifecycle
import Keystroke.Proofs.EventLoop.History
import Keystroke.Proofs.EventLoop.Result
import Keystroke.Proofs.Echo.Printing
import Keystroke.Proofs.Key.Text
import Keystroke.Proofs.Echo.Transcript
import Keystroke.Proofs.EventLoop.Comparison
import Keystroke.Proofs.Echo.Restoration
import Keystroke.Proofs.Terminal.Restoration
import Keystroke.Proofs.Echo.Truncation
import Keystroke.Proofs.EventLoop.Account
import Keystroke.Proofs.EventLoop.Resumption
import Keystroke.Proofs.EventLoop.Termination
import Keystroke.Proofs.Echo.Quitting
import Keystroke.Proofs.Decoder.Resynchronisation
import Keystroke.Proofs.Decoder.Backspace
import Keystroke.Proofs.ControlSequence.Finished
import Keystroke.Proofs.Decoder.AltPrefix
import Keystroke.Proofs.Decoder.Forms
import Keystroke.Proofs.Decoder.Origin
import Keystroke.Proofs.Echo.Teardown
import Keystroke.Proofs.Session.Discards
import Keystroke.Proofs.Decoder.Rounds
