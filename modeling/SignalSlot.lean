import SignalSlot.Main
import SignalSlot.Proofs.Candidates.Counter
import SignalSlot.Proofs.CommandLine.Lines
import SignalSlot.Proofs.Resolution.Widening
import SignalSlot.Proofs.Safety.Resolve
import SignalSlot.Proofs.Signature.Balance
import SignalSlot.Proofs.Signature.Written
import SignalSlot.Proofs.TypeDesc.DeclaredText
import SignalSlot.Proofs.TypeText.Agreement
import SignalSlot.Proofs.Unit.ClassOrder
import SignalSlot.Proofs.Unit.Erasure
import SignalSlot.Proofs.Unit.Layouts
import SignalSlot.Proofs.Unit.Ranges
import SignalSlot.Proofs.Use.Workers
import SignalSlot.Proofs.Universe.Tables
import SignalSlot.Proofs.Candidates.Distinct
import SignalSlot.Proofs.Unit.Names
import SignalSlot.Proofs.Pattern.Table
import SignalSlot.Proofs.Safety.Placement
