import Asm18.Main
import Asm18.Session
import Asm18.Proofs.Literal
import Asm18.Proofs.Labels
import Asm18.Proofs.Encoding
import Asm18.Proofs.Assembly
import Asm18.Proofs.WhiteSpace
import Asm18.Proofs.Grammar
import Asm18.Proofs.Linking
import Asm18.Proofs.Printing
import Asm18.Proofs.RoundTrip
import Asm18.Proofs.Outcome
import Asm18.Proofs.Passes
import Asm18.Proofs.Alignment
import Asm18.Proofs.Capacity
import Asm18.Proofs.Image
import Asm18.Proofs.FileSystem
import Asm18.Proofs.Command
import Asm18.Proofs.Tokens
import Asm18.Proofs.Session
import Asm18.Proofs.Delivery
import Asm18.Proofs.LiteralLanguage
import Asm18.Proofs.Listing
import Asm18.Proofs.Wording
import Asm18.Proofs.Colour
import Asm18.Proofs.Course
import Asm18.Proofs.Arguments
import Asm18.Proofs.Options
import Asm18.Proofs.Operands
import Asm18.Proofs.FirstPass
import Asm18.Proofs.Scanning
import Asm18.Proofs.LineEnds
import Asm18.Proofs.Comments
import Asm18.Proofs.Messages
import Asm18.Proofs.Renaming
import Asm18.Proofs.SymbolDump
import Asm18.Proofs.Splitting
