import Asm6502.Assembly
import Asm6502.CommandLine.Outcome
import Asm6502.Main
import Asm6502.Proofs.AddressSpace
import Asm6502.Proofs.Arguments
import Asm6502.Proofs.Branches
import Asm6502.Proofs.Capitals
import Asm6502.Proofs.Clipping
import Asm6502.Proofs.CommandLine
import Asm6502.Proofs.DataLists
import Asm6502.Proofs.Decoding
import Asm6502.Proofs.DumpContents
import Asm6502.Proofs.EmissionFaults
import Asm6502.Proofs.EventLog
import Asm6502.Proofs.Formatting
import Asm6502.Proofs.ImageContents
import Asm6502.Proofs.IndexBlanks
import Asm6502.Proofs.LabelReferences
import Asm6502.Proofs.LineNumbers
import Asm6502.Proofs.LiteralBytes
import Asm6502.Proofs.LiteralGrammar
import Asm6502.Proofs.Messages
import Asm6502.Proofs.MifRoundTrip
import Asm6502.Proofs.NormalForm
import Asm6502.Proofs.OperandGrammar
import Asm6502.Proofs.Relocation
import Asm6502.Proofs.Renaming
import Asm6502.Proofs.Segments
import Asm6502.Proofs.StatementRoundTrip
import Asm6502.Proofs.SurveyFaults
import Asm6502.Proofs.TwoPasses
import Asm6502.Proofs.WholeLines
import Asm6502.Rendering
