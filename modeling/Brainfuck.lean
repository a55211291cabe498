import Brainfuck.Program.Balanced
import Brainfuck.Interpreter.Reach
import Brainfuck.Interpreter.Command
import Brainfuck.Report.Log
import Brainfuck.Main
import Brainfuck.Proofs.Brackets.Opened
import Brainfuck.Proofs.Brackets.Partner
import Brainfuck.Proofs.Interpreter.Effect
import Brainfuck.Proofs.Interpreter.Ending
import Brainfuck.Proofs.Interpreter.StaticLoops
import Brainfuck.Proofs.Interpreter.CheckAgreement
import Brainfuck.Proofs.Stream.Answers
import Brainfuck.Proofs.Structured.Tree
import Brainfuck.Proofs.Structured.Semantics
import Brainfuck.Proofs.Structured.Engine
import Brainfuck.Proofs.Interpreter.FailedRuns
import Brainfuck.Proofs.Interpreter.StreamCalls
import Brainfuck.Proofs.Interpreter.Conservation
import Brainfuck.Proofs.Interpreter.Renaming
import Brainfuck.Proofs.Interpreter.Replay
import Brainfuck.Proofs.Interpreter.Sequence
import Brainfuck.Proofs.Interpreter.Lockstep
import Brainfuck.Proofs.Interpreter.Interruption
import Brainfuck.Proofs.Interpreter.Capacity
import Brainfuck.Proofs.Program.Stripping
import Brainfuck.Proofs.Interpreter.Comments
import Brainfuck.Proofs.Program.Loading
import Brainfuck.Proofs.CommandLine.Phases
import Brainfuck.Proofs.Interpreter.Control
import Brainfuck.Proofs.Interpreter.Simulation
import Brainfuck.Proofs.Interpreter.Band
import Brainfuck.Proofs.Interpreter.Window
import Brainfuck.Proofs.Interpreter.Rotation
import Brainfuck.Proofs.Stream.Arrivals
import Brainfuck.Proofs.Stream.Transient
import Brainfuck.Proofs.Interpreter.Coupling
import Brainfuck.Proofs.Interpreter.TransientFailures
import Brainfuck.Proofs.Interpreter.Padding
import Brainfuck.Proofs.Stream.Fork
import Brainfuck.Proofs.Interpreter.UnreadInput
import Brainfuck.Proofs.Program.BoundedLoading
import Brainfuck.Proofs.Brackets.Surplus
import Brainfuck.Proofs.Brackets.Search
import Brainfuck.Proofs.Report.CaretColumn
import Brainfuck.Proofs.Report.StepRows
import Brainfuck.Proofs.Settings.Assignments
import Brainfuck.Proofs.Settings.LastValues
import Brainfuck.Proofs.Text.Lines
import Brainfuck.Proofs.Settings.Deletion
import Brainfuck.Proofs.Settings.Precedence
import Brainfuck.Proofs.Interpreter.StraightLine
import Brainfuck.Proofs.Guarded.Words
import Brainfuck.Proofs.Guarded.Report
import Brainfuck.Proofs.Guarded.Machine
import Brainfuck.Proofs.Guarded.Engine
import Brainfuck.Proofs.Guarded.Safety
