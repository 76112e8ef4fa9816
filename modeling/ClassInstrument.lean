import ClassInstrument.Code.Relabeling
import ClassInstrument.Main
import ClassInstrument.Storage.Changes
import ClassInstrument.Text.Hexadecimal
import ClassInstrument.Proofs.Assembly.Bounds
import ClassInstrument.Proofs.Code.Decodable
import ClassInstrument.Proofs.Code.Operands
import ClassInstrument.Proofs.Code.ReadBack
import ClassInstrument.Proofs.ClassFile.RoundTrip
import ClassInstrument.Proofs.Policy.Shielding
import ClassInstrument.Proofs.Assembly.Decoded
import ClassInstrument.Proofs.Assembly.FrameTable
import ClassInstrument.Proofs.ClassDecl.Copying
import ClassInstrument.Proofs.ClassDecl.ReadBack
import ClassInstrument.Proofs.ClassDecl.Respelling
import ClassInstrument.Proofs.Config.Callbacks
import ClassInstrument.Proofs.Policy.Interplay
import ClassInstrument.Proofs.Policy.MethodKeys
import ClassInstrument.Proofs.Policy.Unmarking
import ClassInstrument.Proofs.Batch.Turns
import ClassInstrument.Proofs.Assembly.WidenedControl
import ClassInstrument.Proofs.Assembly.Condensed
import ClassInstrument.Proofs.ClassDecl.Untouched
import ClassInstrument.Proofs.Hierarchy.NearestSuperclass
import ClassInstrument.Proofs.Assembly.Reassembly
import ClassInstrument.Proofs.Policy.Overriding
import ClassInstrument.Proofs.Policy.Thresholds
import ClassInstrument.Proofs.Policy.Requirements
import ClassInstrument.Proofs.Policy.Coverage
import ClassInstrument.Proofs.Policy.EntryGuards
import ClassInstrument.Proofs.Policy.ConstructorScan
import ClassInstrument.Proofs.Policy.ForwarderAnalysis
import ClassInstrument.Proofs.Policy.StaleCalls
import ClassInstrument.Proofs.Config.LineOrder
import ClassInstrument.Proofs.Pool.Answers
import ClassInstrument.Proofs.ClassDecl.MarkReading
import ClassInstrument.Proofs.Batch.FailedTurns
import ClassInstrument.Proofs.Assembly.Sizes
import ClassInstrument.Proofs.Code.Switches
import ClassInstrument.Proofs.Analysis.ShuffledSlots
import ClassInstrument.Proofs.Analysis.WellFormedFrames
