import Parlance.Dialect.Commands
import Parlance.Script.Cached
import Parlance.Value.Equality
import Parlance.Value.Inspect
import Parlance.Proofs.Meaning.Execution
import Parlance.Proofs.Suspension.Transparent
import Parlance.Proofs.InPlace
import Parlance.Proofs.ErrorLevels
import Parlance.Proofs.Reading.Session
import Parlance.Proofs.Reading.Shaped
import Parlance.Proofs.Reading.Nested
import Parlance.Proofs.Reading.Laid
import Parlance.Proofs.Reading.Erased
import Parlance.Proofs.Reading.Reachable
import Parlance.Proofs.Display.BlockText
import Parlance.Proofs.Json.Cached
import Parlance.Proofs.Selection.NormalForm
import Parlance.Proofs.Grammar
import Parlance.Proofs.Shifted
import Parlance.Proofs.Lookahead
import Parlance.Proofs.Reading.HereStrings
import Parlance.Proofs.Reading.TaggedStrings
import Parlance.Proofs.Reading.Culprits
import Parlance.Proofs.Reading.Failures
import Parlance.Proofs.Display.Displayable
import Parlance.Proofs.Escapes
import Parlance.Proofs.Reading.Marked
import Parlance.Proofs.Equality.Respected
