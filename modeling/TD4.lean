import TD4.Nibble
import TD4.Text.Digits
import TD4.Text.Numeral
import TD4.Text.Blank
import TD4.Text.CaseTable
import TD4.Text.Lowercase
import TD4.Fault
import TD4.Rom
import TD4.Registers
import TD4.Instruction
import TD4.Cpu
import TD4.Cpu.Command
import TD4.Listing
import TD4.Assembly.Error
import TD4.Assembly.Operand
import TD4.Assembly.Statement
import TD4.Assembly.SourceLine
import TD4.Assembly.Draft
import TD4.Json.Tree
import TD4.Json.Token
import TD4.Json.Reader
import TD4.Json.Layout
import TD4.Json.Record
import TD4.Snapshot
import TD4.Dump
import TD4.FileView
import TD4.RunConfig
import TD4.Worker
import TD4.Emulator
import TD4.Path
import TD4.FileTree
import TD4.Image
import TD4.CommandLine.Options
import TD4.CommandLine.Invocation
import TD4.CommandLine.Response
import TD4.CommandLine.Run
import TD4.CommandLine.Trace
import TD4.CommandLine.Assemble
import TD4.CommandLine.Execute
import TD4.Main
import TD4.Proofs.Assembly.Operand
import TD4.Proofs.Text.Lowercase
import TD4.Proofs.Assembly.Statement
import TD4.Proofs.Assembly.FirstPass
import TD4.Proofs.Assembly.PlainLine
import TD4.Proofs.Text.LowercaseWords
import TD4.Proofs.Assembly.SecondPass
import TD4.Proofs.Assembly.TwoPasses
import TD4.Proofs.Assembly.Grammar
import TD4.Proofs.Listing.RoundTrip
import TD4.Proofs.Cpu.Registers
import TD4.Proofs.Cpu.Step
import TD4.Proofs.Cpu.Calls
import TD4.Proofs.Cpu.Ideal
import TD4.Proofs.Cpu.Carry
import TD4.Proofs.Cpu.Dependence
import TD4.Proofs.Cpu.Failure
import TD4.Proofs.Cpu.LimitedRun
import TD4.Proofs.Rom
import TD4.Proofs.Assembly.StatementFault
import TD4.Proofs.Assembly.Faults
import TD4.Proofs.Cpu.Halting
import TD4.Proofs.Worker.Schedule
import TD4.Proofs.Emulator.Log
import TD4.Proofs.Emulator.Serial
import TD4.Proofs.Emulator.Turns
import TD4.Proofs.Emulator.Callbacks
import TD4.Proofs.Emulator.Refusal
import TD4.Proofs.Emulator.Accounts
import TD4.Proofs.Json.Spelling
import TD4.Proofs.Json.Pretty
import TD4.Proofs.CommandLine.Columns
import TD4.Proofs.CommandLine.RunAndTrace
import TD4.Proofs.Cpu.HaltingBound
import TD4.Proofs.Cpu.Overflow
import TD4.Proofs.Cpu.Masking
import TD4.Proofs.Cpu.Bookkeeping
import TD4.Proofs.Json.Compact
import TD4.Proofs.Json.Lossless
import TD4.Proofs.CommandLine.AssembleFirst
import TD4.Proofs.Text.LetterCase
import TD4.Proofs.Text.Positional
import TD4.Proofs.Assembly.Appearance
import TD4.Proofs.Assembly.Layout
import TD4.Proofs.Assembly.Numbers
import TD4.Proofs.Assembly.Relocation
import TD4.Proofs.Assembly.Fixups
import TD4.Proofs.Assembly.NumberRange
import TD4.Proofs.Cpu.RaisedCarry
import TD4.Proofs.Json.Grammar
import TD4.Proofs.RunConfig
import TD4.Proofs.Path.Extension
import TD4.Proofs.Image
import TD4.Proofs.CommandLine.Footprint
import TD4.Proofs.CommandLine.Settings
