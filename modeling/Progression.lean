import Progression.Formula.Draft
import Progression.Generator
import Progression.LevelGauge
import Progression.Interval
import Progression.Main
import Progression.Samples
import Progression.Session
import Progression.Proofs.Formula.Brackets
import Progression.Proofs.Formula.Phrase
import Progression.Proofs.Formula.Unambiguity
import Progression.Proofs.Formula.Prediction
import Progression.Proofs.Formula.Recognition
import Progression.Proofs.Formula.Memory
import Progression.Proofs.Formula.Unfinished
import Progression.Proofs.Formula.Completeness
import Progression.Proofs.Formula.Soundness
import Progression.Proofs.Formula.Acceptance
import Progression.Proofs.Formula.ErrorReports
import Progression.Proofs.Double.ReadBack
import Progression.Proofs.Text.DecimalDigits
import Progression.Proofs.Double.Spelling
import Progression.Proofs.Formula.RoundTrip
import Progression.Proofs.Gauge.Ledger
import Progression.Proofs.LevelGauge.CarryOver
import Progression.Proofs.LevelGauge.Saving
import Progression.Proofs.Machine.Standard
import Progression.Proofs.Formula.Interchange
import Progression.Proofs.Interval.Landing
import Progression.Proofs.Formula.NestingLimit
import Progression.Proofs.Double.Line
import Progression.Proofs.StorageType.Truncating
import Progression.Proofs.Value.Exact
import Progression.Proofs.Value.Declared
import Progression.Proofs.Double.Significant
import Progression.Proofs.Formula.Echo
import Progression.Proofs.Gauge.Batches
import Progression.Proofs.Double.Representable
import Progression.Proofs.StorageType.SinglePrecision
import Progression.Proofs.Double.Operations
import Progression.Proofs.Gauge.Kinds
import Progression.Proofs.LevelGauge.UnsignedCeilings
import Progression.Proofs.Machine.Library
import Progression.Proofs.Formula.Saving
import Progression.Proofs.LevelGauge.ChangeLog
import Progression.Proofs.LevelGauge.CeilingTypes
import Progression.Proofs.Text.IntegerText
import Progression.Proofs.Value.Places
import Progression.Proofs.LevelTable.Loading
import Progression.Proofs.LevelTable.UnrealLevels
import Progression.Proofs.Gauge.Faults
import Progression.Proofs.Session.Transcript
import Progression.Proofs.Generator.Acceptance
import Progression.Proofs.Formula.NumberTokens
import Progression.Proofs.Formula.ErrorLayout
