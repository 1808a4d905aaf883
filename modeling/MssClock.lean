import MssClock.Main
import MssClock.Board.Operation
import MssClock.Clock.RegisterFile
import MssClock.Directory
import MssClock.Register.Edit
import MssClock.Proofs.Register.Bits
import MssClock.Proofs.BringUp.Course
import MssClock.Proofs.BringUp.Outcome
import MssClock.Proofs.BringUp.Bounded
import MssClock.Proofs.BringUp.History
import MssClock.Proofs.BringUp.Sequencing
import MssClock.Proofs.Clock.Evaluation
import MssClock.Proofs.Clock.Tree
import MssClock.Proofs.Clock.Learning
import MssClock.Proofs.Board.BringUp
import MssClock.Proofs.Board.Init
import MssClock.Proofs.Board.Guard
import MssClock.Proofs.Board.Watchdog
import MssClock.Proofs.Board.Footprint
import MssClock.Proofs.Board.Agreement
import MssClock.Proofs.Text.Numeral
import MssClock.Proofs.Command.Spelling
import MssClock.Proofs.Text.Words
import MssClock.Proofs.Command.Report
import MssClock.Proofs.Command.FirmwareLog
import MssClock.Proofs.Command.Supply
import MssClock.Proofs.Command.Precedence
import MssClock.Proofs.Command.Reading
import MssClock.Proofs.Hjson.Bare
import MssClock.Proofs.Hjson.Entries
import MssClock.Proofs.Dump
import MssClock.Proofs.Text.Language
import MssClock.Proofs.Text.Refusal
import MssClock.Proofs.Console
import MssClock.Proofs.Clock.Wrap
import MssClock.Proofs.Clock.Truncation
import MssClock.Proofs.Clock.Reference
import MssClock.Proofs.Clock.Divisor
import MssClock.Proofs.Command.BaudRate
import MssClock.Proofs.Clock.Checked
import MssClock.Proofs.Register.Field
import MssClock.Proofs.Register.Layout
import MssClock.Proofs.Register.Edits
import MssClock.Proofs.Register.DataSheet
import MssClock.Proofs.Board.Access
import MssClock.Proofs.Command.Arrangement
