import Asm32.Assembly
import Asm32.Assembly.Error
import Asm32.Assembly.Event
import Asm32.Assembly.Labels
import Asm32.Command.Arguments
import Asm32.Command.Assembler
import Asm32.Command.Disassembler
import Asm32.Command.Report
import Asm32.Command.SetSource
import Asm32.Field
import Asm32.Files
import Asm32.Format
import Asm32.Image
import Asm32.Image.Hex
import Asm32.Image.Record
import Asm32.Instruction.Decoding
import Asm32.Instruction.Encoding
import Asm32.Instruction.Record
import Asm32.InstructionSet
import Asm32.InstructionSet.Builtin
import Asm32.InstructionSet.Description
import Asm32.InstructionSet.FeatureText
import Asm32.InstructionSet.Validation
import Asm32.Json
import Asm32.Json.Reader
import Asm32.Json.Shape
import Asm32.Json.Writer
import Asm32.Layout
import Asm32.Listing
import Asm32.Listing.Record
import Asm32.Main
import Asm32.Proofs.AssemblerRange
import Asm32.Proofs.BranchTarget
import Asm32.Proofs.Code
import Asm32.Proofs.Consistency
import Asm32.Proofs.Disassembly
import Asm32.Proofs.Encoding
import Asm32.Proofs.FieldArithmetic
import Asm32.Proofs.Fixup
import Asm32.Proofs.InstructionRoundTrip
import Asm32.Proofs.Joining
import Asm32.Proofs.LineRoundTrip
import Asm32.Proofs.Lines
import Asm32.Proofs.Linking
import Asm32.Proofs.Numerals
import Asm32.Proofs.Packing
import Asm32.Proofs.Reassembly
import Asm32.Proofs.ResolveFirst
import Asm32.Proofs.Safety
import Asm32.Proofs.Spelling
import Asm32.Proofs.Violations
import Asm32.Proofs.WrittenCode
import Asm32.Source.Line
import Asm32.Source.Literal
import Asm32.Source.Token
import Asm32.Text.Blank
import Asm32.Text.Combining
import Asm32.Text.Cut
import Asm32.Text.Lines
import Asm32.Text.Numeral
import Asm32.Text.Quoted
import Asm32.Text.Unprintable
import Asm32.Proofs.InstructionWords
import Asm32.Proofs.HexImage
import Asm32.Proofs.ListingPadding
import Asm32.Proofs.JsonText
import Asm32.Proofs.FeatureText
import Asm32.Proofs.JsonRecords
import Asm32.Proofs.Readings
import Asm32.Proofs.SourceLayout
import Asm32.Proofs.Renaming
import Asm32.Proofs.Writability
import Asm32.Proofs.AssemblerRun
import Asm32.Proofs.TableOrder
import Asm32.Proofs.LineGrammar
import Asm32.Proofs.NumeralSyntax
import Asm32.Proofs.Literals
import Asm32.Proofs.OperandFaults
import Asm32.Proofs.ListingLabels
import Asm32.Proofs.EventLog
import Asm32.Proofs.Tokenizing
