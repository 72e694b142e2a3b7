import StackCircuit.Argument
import StackCircuit.Assembly.Parser
import StackCircuit.BoundedStack
import StackCircuit.Bytecode.Listing
import StackCircuit.Circuit.Digest
import StackCircuit.Command.Outcome
import StackCircuit.Gate
import StackCircuit.Lexical.Lexer
import StackCircuit.Machine.Session
import StackCircuit.Main
import StackCircuit.Source
import StackCircuit.Text.Quoted
import StackCircuit.Text.Style
import StackCircuit.Text.Utf8
import StackCircuit.Proofs.Circuit.Satisfaction
import StackCircuit.Proofs.Machine.Keeps
import StackCircuit.Proofs.Machine.Step
import StackCircuit.Proofs.Machine.Gates
import StackCircuit.Proofs.Circuit.Operations
import StackCircuit.Proofs.Circuit.Witness
import StackCircuit.Proofs.Circuit.Meaning
import StackCircuit.Proofs.Bytecode.Structured
import StackCircuit.Proofs.Bytecode.Selection
import StackCircuit.Proofs.Machine.Layers
import StackCircuit.Proofs.Machine.Relate
import StackCircuit.Proofs.Machine.Sweep
import StackCircuit.Proofs.Machine.Linearise
import StackCircuit.Proofs.Machine.Arms
import StackCircuit.Proofs.Machine.Journal
import StackCircuit.Proofs.Machine.Chronicle
import StackCircuit.Proofs.Machine.Completion
import StackCircuit.Proofs.Machine.Failures
import StackCircuit.Proofs.Machine.Recovery
import StackCircuit.Proofs.Machine.Guards
import StackCircuit.Proofs.Machine.Flat
import StackCircuit.Proofs.Machine.Lockstep
import StackCircuit.Proofs.Plain.Machine
import StackCircuit.Proofs.Plain.Tracking
import StackCircuit.Proofs.Plain.Calls
import StackCircuit.Proofs.Plain.Refinement
import StackCircuit.Proofs.Machine.Uniform
import StackCircuit.Proofs.Plain.Replay
import StackCircuit.Proofs.Plain.Representation
import StackCircuit.Proofs.Machine.Safe
import StackCircuit.Proofs.Machine.Tenancy
import StackCircuit.Proofs.Machine.Apart
import StackCircuit.Proofs.Machine.Faultless
import StackCircuit.Proofs.Machine.Termination
import StackCircuit.Proofs.Circuit.Layout
import StackCircuit.Proofs.Circuit.Atomicity
import StackCircuit.Proofs.Machine.Depth
import StackCircuit.Proofs.Machine.Resumption
import StackCircuit.Proofs.Machine.Echo
import StackCircuit.Proofs.Lexical.Scanners
import StackCircuit.Proofs.Lexical.Cuts
import StackCircuit.Proofs.Assembly.Tokens
import StackCircuit.Proofs.Assembly.Parsers
import StackCircuit.Proofs.Numeral
import StackCircuit.Proofs.Assembly.Total
import StackCircuit.Proofs.Assembly.Lexemes
import StackCircuit.Proofs.Assembly.Grammar
import StackCircuit.Proofs.Assembly.LabelTable
import StackCircuit.Proofs.Assembly.Bodies
import StackCircuit.Proofs.Assembly.Patches
import StackCircuit.Proofs.Assembly.Declarations
import StackCircuit.Proofs.Assembly.Files
import StackCircuit.Proofs.Assembly.Spelling
import StackCircuit.Proofs.Assembly.RoundTrip
import StackCircuit.Proofs.Machine.Selection
import StackCircuit.Proofs.Circuit.Stream
import StackCircuit.Proofs.Circuit.Consistency
import StackCircuit.Proofs.Assembly.LabelHistory
import StackCircuit.Proofs.Assembly.Targets
import StackCircuit.Proofs.Lexical.Tiling
import StackCircuit.Proofs.Assembly.LexicalGrammar
import StackCircuit.Proofs.Assembly.Literals
import StackCircuit.Proofs.Assembly.Callees
import StackCircuit.Proofs.Argument
import StackCircuit.Proofs.Source.Lines
import StackCircuit.Proofs.Text.Escapes
import StackCircuit.Proofs.Bytecode.Listing
import StackCircuit.Proofs.Lexical.Bounds
