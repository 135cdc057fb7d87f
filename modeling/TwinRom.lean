import TwinRom.Text.Basic
import TwinRom.Text.Numeral
import TwinRom.Text.Utf8
import TwinRom.Text.Printable
import TwinRom.Text.Quoted
import TwinRom.Text.Plain
import TwinRom.Machine.Opcode
import TwinRom.Machine.AluFunction
import TwinRom.Machine.Mnemonic
import TwinRom.Rom.Fragment
import TwinRom.Source.Operand
import TwinRom.Source.Fault
import TwinRom.Source.Classification
import TwinRom.Source.Encoding
import TwinRom.Source.Line
import TwinRom.Source.Statement
import TwinRom.Rom.Image
import TwinRom.Path
import TwinRom.Rom.Format
import TwinRom.Log
import TwinRom.Source.Program
import TwinRom.Text.Shortest
import TwinRom.Json.Fault
import TwinRom.Json.Numeral
import TwinRom.Json.StringBody
import TwinRom.Json.Token
import TwinRom.Json.Skipping
import TwinRom.Json.Streams
import TwinRom.Rom.LoadError
import TwinRom.Rom.Table
import TwinRom.Rom.Markers
import TwinRom.Rom.HexLines
import TwinRom.Rom.Binary
import TwinRom.Rom.JsonText
import TwinRom.Rom.Listing
import TwinRom.Rom.Transfer
import TwinRom.Cli.Disk
import TwinRom.Cli.Command
import TwinRom.Cli.Reply
import TwinRom.Cli.Run
import TwinRom.Main
import TwinRom.Proofs.Outcome
import TwinRom.Proofs.Encoding
import TwinRom.Proofs.Disassembly
import TwinRom.Proofs.Lookups
import TwinRom.Proofs.LineCode
import TwinRom.Proofs.Images
import TwinRom.Proofs.Runs
import TwinRom.Proofs.Linewise
import TwinRom.Proofs.Semantics
import TwinRom.Proofs.Meaning
import TwinRom.Proofs.Utf8
import TwinRom.Proofs.Spelling
import TwinRom.Proofs.Digits
import TwinRom.Proofs.Spacing
import TwinRom.Proofs.TableLayout
import TwinRom.Proofs.StreamLines
import TwinRom.Proofs.Overwriting
import TwinRom.Proofs.TextFormats
import TwinRom.Proofs.JsonImages
import TwinRom.Proofs.RoundTrip
import TwinRom.Proofs.Loading
import TwinRom.Proofs.Diagnosis
import TwinRom.Proofs.Layout
import TwinRom.Proofs.Escapes
import TwinRom.Proofs.Grammar
import TwinRom.Proofs.Parsing
import TwinRom.Proofs.Verdicts
import TwinRom.Proofs.LetterCase
import TwinRom.Proofs.OperandNumerals
import TwinRom.Proofs.Commands
import TwinRom.Proofs.Workflow
import TwinRom.Proofs.Listings
import TwinRom.Proofs.Validation
import TwinRom.Proofs.Fields
import TwinRom.Proofs.LineEnds
import TwinRom.Proofs.Paths
import TwinRom.Proofs.Delivery
import TwinRom.Proofs.Pools
