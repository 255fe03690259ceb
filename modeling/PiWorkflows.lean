import PiWorkflows.Proofs.ActiveTime
import PiWorkflows.Proofs.AnsweredRequests
import PiWorkflows.Proofs.BatchReturns
import PiWorkflows.Proofs.BoundedEvidence
import PiWorkflows.Proofs.BoundedLedger
import PiWorkflows.Proofs.ChannelAttempts
import PiWorkflows.Proofs.ChattyText
import PiWorkflows.Proofs.Classification
import PiWorkflows.Proofs.CollatedKeys
import PiWorkflows.Proofs.CompletePage
import PiWorkflows.Proofs.CurrentUpdates
import PiWorkflows.Proofs.Dependents
import PiWorkflows.Proofs.EffectAttempts
import PiWorkflows.Proofs.EffectPasses
import PiWorkflows.Proofs.FollowUpMessages
import PiWorkflows.Proofs.LatestSteps
import PiWorkflows.Proofs.LayoutPort
import PiWorkflows.Proofs.MovePermission
import PiWorkflows.Proofs.OwnedTurns
import PiWorkflows.Proofs.PatchConformance
import PiWorkflows.Proofs.ProtectedDecisions
import PiWorkflows.Proofs.QueueOutcome
import PiWorkflows.Proofs.RouteTargets
import PiWorkflows.Proofs.ServerClaims
import PiWorkflows.Proofs.SessionReplay
import PiWorkflows.Proofs.SettingsGuard
import PiWorkflows.Proofs.SettingsRepeats
import PiWorkflows.Proofs.SettledDecisions
import PiWorkflows.Proofs.ShellLines
import PiWorkflows.Proofs.StepLimits
import PiWorkflows.Proofs.TelegramParts
import PiWorkflows.Proofs.ValuePresentation
import PiWorkflows.Proofs.VerificationExits
import PiWorkflows.Proofs.ViewerCursor
import PiWorkflows.Proofs.ViewerTail
import PiWorkflows.Proofs.Walk
