import Chip8.Asm.ObjectFile.Binary
import Chip8.Asm.ObjectFile.Textual
import Chip8.Listing
import Chip8.Machine.Run
import Chip8.Proofs.Asm.BinaryFormat
import Chip8.Proofs.Asm.Classification
import Chip8.Proofs.Asm.Decoding
import Chip8.Proofs.Asm.Diagnostics
import Chip8.Proofs.Asm.ExactReading
import Chip8.Proofs.Asm.Items
import Chip8.Proofs.Asm.LabelLookup
import Chip8.Proofs.Asm.LetterCase
import Chip8.Proofs.Asm.Lexing
import Chip8.Proofs.Asm.Reassembly
import Chip8.Proofs.Asm.TextualFormat
import Chip8.Proofs.LoadedProgram
import Chip8.Proofs.Loading
import Chip8.Proofs.Machine.AddressSum
import Chip8.Proofs.Machine.Arithmetic
import Chip8.Proofs.Machine.Blocks
import Chip8.Proofs.Machine.Drawing
import Chip8.Proofs.Machine.Failing
import Chip8.Proofs.Machine.Fresh
import Chip8.Proofs.Machine.KeyDelivery
import Chip8.Proofs.Machine.OperationBreakpoint
import Chip8.Proofs.Machine.RegisterBlocks
import Chip8.Proofs.Machine.Reported
import Chip8.Proofs.Machine.RestingTime
import Chip8.Proofs.Machine.Subroutine
import Chip8.Proofs.Machine.TickRate
import Chip8.Proofs.Machine.TimerCap
import Chip8.Proofs.Machine.WellFormed
