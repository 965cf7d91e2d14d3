import TapeLang.Main
import TapeLang.Tape.Lemmas
import TapeLang.Proofs.Machine.Safety
import TapeLang.Proofs.Structured.Agreement
import TapeLang.Proofs.Tape.History
import TapeLang.Machine.Stepping
import TapeLang.Proofs.Machine.Exchange
import TapeLang.Proofs.Machine.Failure
import TapeLang.Proofs.Machine.Retry
import TapeLang.Proofs.Machine.Limit
import TapeLang.Machine.Attempt
import TapeLang.Proofs.Machine.Thread
import TapeLang.Proofs.Machine.Account
import TapeLang.Proofs.Machine.Enlarge
import TapeLang.Proofs.Machine.Policy
import TapeLang.Machine.Interleave
import TapeLang.Proofs.Machine.Interleaving
import TapeLang.Proofs.Machine.Consumed
import TapeLang.Proofs.Text.Utf8
import TapeLang.Proofs.Source.Caret
import TapeLang.Proofs.Machine.Runs
import TapeLang.Proofs.Command.Words
import TapeLang.Proofs.Command.Ready
import TapeLang.Proofs.Command.Outcome
import TapeLang.Proofs.Machine.Conditions
import TapeLang.Proofs.Machine.Crossing
import TapeLang.Proofs.Command.Stages
import TapeLang.Proofs.Tape.Growth
import TapeLang.Proofs.Program.Comments
import TapeLang.Proofs.Program.Appending
import TapeLang.Proofs.Program.Composition
import TapeLang.Proofs.Machine.Repetition
import TapeLang.Proofs.Machine.Wrapping
import TapeLang.Proofs.Machine.Storage
import TapeLang.Proofs.Text.Encoding
import TapeLang.Proofs.Text.Subparts
import TapeLang.Proofs.Source.Places
import TapeLang.Proofs.Source.Shown
import TapeLang.Proofs.Machine.Loops
import TapeLang.Proofs.Machine.Product
import TapeLang.Proofs.Machine.Echo
import TapeLang.Proofs.Machine.Endless
import TapeLang.Proofs.Machine.Forward
import TapeLang.Proofs.Program.Enclosing
