import JvmDebug.Config.Read
import JvmDebug.LogFilter
import JvmDebug.Proofs.ArgumentPieces
import JvmDebug.Proofs.AssignmentConversion
import JvmDebug.Proofs.CallOrder
import JvmDebug.Proofs.Closing
import JvmDebug.Proofs.ConfigSettings
import JvmDebug.Proofs.DeferralAgreement
import JvmDebug.Proofs.DeferredLoss
import JvmDebug.Proofs.EventDelivery
import JvmDebug.Proofs.EventForm
import JvmDebug.Proofs.EventIntake
import JvmDebug.Proofs.EventReading
import JvmDebug.Proofs.EventWaits
import JvmDebug.Proofs.FailedAdditions
import JvmDebug.Proofs.Firing
import JvmDebug.Proofs.FlagAgreement
import JvmDebug.Proofs.HitCounts
import JvmDebug.Proofs.IntegerLiterals
import JvmDebug.Proofs.LinePlaces
import JvmDebug.Proofs.LocationRequests
import JvmDebug.Proofs.LoopTurns
import JvmDebug.Proofs.MemberResolution
import JvmDebug.Proofs.MemberWalks
import JvmDebug.Proofs.Negotiation
import JvmDebug.Proofs.Parentheses
import JvmDebug.Proofs.ParserSafety
import JvmDebug.Proofs.RecordedStops
import JvmDebug.Proofs.RegistryUse
import JvmDebug.Proofs.RequestAgreement
import JvmDebug.Proofs.RequestOwnership
import JvmDebug.Proofs.Scripts
import JvmDebug.Proofs.SelectedFrame
import JvmDebug.Proofs.StepFailures
import JvmDebug.Proofs.StepRequests
import JvmDebug.Proofs.StopSurvival
import JvmDebug.Proofs.StringDisplay
import JvmDebug.Proofs.SubtypeSearch
import JvmDebug.Proofs.TableRuns
import JvmDebug.Proofs.Traffic
import JvmDebug.Proofs.TypeCache
import JvmDebug.Proofs.TypeNames
import JvmDebug.Proofs.UnresolvedChains
import JvmDebug.Proofs.VariableWrites
import JvmDebug.Proofs.VisibleVariables
import JvmDebug.Proofs.WholeNumbers
import JvmDebug.Proofs.WireFormat
import JvmDebug.Simulation
import JvmDebug.Vm.Boot
import JvmDebug.Vm.Report
import JvmDebug.Wire.Connect
