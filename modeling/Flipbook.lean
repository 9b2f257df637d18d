import Flipbook.Main
import Flipbook.Player.Snapshot
import Flipbook.Script.Edit
import Flipbook.Text.Buffer
import Flipbook.Proofs.Text.Canonical
import Flipbook.Proofs.Text.Lookahead
import Flipbook.Proofs.Player.Rounds
import Flipbook.Proofs.Player.Restored
import Flipbook.Proofs.Player.Straight
import Flipbook.Proofs.Player.JumpRules
import Flipbook.Proofs.Player.Cut
import Flipbook.Proofs.Player.Shift
import Flipbook.Proofs.Script.Consistent
import Flipbook.Proofs.Text.Joined
import Flipbook.Proofs.Player.Final
import Flipbook.Proofs.Player.Jumps
import Flipbook.Proofs.Player.Passes
import Flipbook.Proofs.Script.Lookup
import Flipbook.Proofs.Text.Buffer
import Flipbook.Proofs.Player.Quiet
import Flipbook.Proofs.Text.Greedy
import Flipbook.Proofs.Script.Next
import Flipbook.Proofs.Script.Edits
import Flipbook.Proofs.Player.Transcript
import Flipbook.Proofs.Text.Diagnostic
import Flipbook.Proofs.Text.Tightest
import Flipbook.Proofs.Tool.Agreement
import Flipbook.Proofs.Tool.Normalize
import Flipbook.Proofs.Tag.Bytes
import Flipbook.Proofs.Text.Exact
import Flipbook.Proofs.Toml.Lines
import Flipbook.Proofs.Player.SettingsFile
