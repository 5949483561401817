import ThalosBackend.Js.Print
import ThalosBackend.Js.Text
import ThalosBackend.InternalTrustless.ResolutionSafety
import ThalosBackend.InternalTrustless.MilestoneIndex
import ThalosBackend.InternalTrustless.RetryBackstop
import ThalosBackend.InternalTrustless.TrustlineGuard
import ThalosBackend.Library.Table
import ThalosBackend.Library.Threads
import ThalosBackend.Disputes.DistributionConservation
import ThalosBackend.Disputes.FairSplit
import ThalosBackend.Agreements.ExactSums
import ThalosBackend.RetryQueue.Enqueue
import ThalosBackend.RetryQueue.CleanRuns
import ThalosBackend.Js.Coercion
import ThalosBackend.Js.IsoDate
import ThalosBackend.Library.Calls
import ThalosBackend.Wallets.ChallengeBinding
import ThalosBackend.Library.CallThreads
import ThalosBackend.Wallets.BindingSafety
import ThalosBackend.Wallets.ChallengeRoundTrip
import ThalosBackend.Agreements.MoneyTerms
import ThalosBackend.Agreements.LifecycleRuns
import ThalosBackend.Agreements.CompletionGate
import ThalosBackend.Agreements.MoneyIdentity
import ThalosBackend.Disputes.DisputeOutcomes
import ThalosBackend.Disputes.AllOrNothing
import ThalosBackend.Agreements.AnsweredQueries
import ThalosBackend.Disputes.InStep
import ThalosBackend.Disputes.DisputeSteps
import ThalosBackend.Disputes.SelfJudged
import ThalosBackend.Library.DotSegments
import ThalosBackend.Js.Url
import ThalosBackend.InternalTrustless.TrustlessRelay
import ThalosBackend.Agreements.AccessRule
import ThalosBackend.Disputes.OneAccessRule
import ThalosBackend.Agreements.MilestoneWrites
import ThalosBackend.Agreements.TerminalMilestones
import ThalosBackend.Profiles.ReputationService
import ThalosBackend.Profiles.ReleaseProvenance
import ThalosBackend.Agreements.StoredConsistency
import ThalosBackend.Agreements.SyncOutcome
import ThalosBackend.Agreements.MilestoneSyncService
import ThalosBackend.Agreements.ReconcilePolicy
import ThalosBackend.Agreements.StatusHistory
import ThalosBackend.Agreements.StatusEvents
import ThalosBackend.Agreements.EvidenceFunding
import ThalosBackend.Webhooks.EventDelivery
import ThalosBackend.Agreements.Interleaving
import ThalosBackend.Agreements.MilestoneRaces
import ThalosBackend.Agreements.StatusRaces
import ThalosBackend.Webhooks.ContractRaces
import ThalosBackend.Webhooks.WebhookQueries
import ThalosBackend.Disputes.DisputeRaces
import ThalosBackend.Agreements.AgreementListing
import ThalosBackend.Agreements.ListedAgreements
import ThalosBackend.Agreements.ContractLinks
import ThalosBackend.Wallets.PrimaryWallet
import ThalosBackend.Profiles.ProfilesDb
import ThalosBackend.Profiles.ProfilesService
import ThalosBackend.Profiles.AdminRights
import ThalosBackend.Profiles.PublicProfiles
import ThalosBackend.Agreements.ActivityLog
import ThalosBackend.Opportunities.ConnectDb
import ThalosBackend.Opportunities.OpportunitiesService
import ThalosBackend.Applications.ApplicationsService
import ThalosBackend.Opportunities.OpportunityLifecycle
import ThalosBackend.Applications.AcceptedOnce
import ThalosBackend.Kyb.KybDb
import ThalosBackend.Kyb.KybService
import ThalosBackend.Kyb.RecordLeak
import ThalosBackend.Kyb.FinalDecisions
import ThalosBackend.Verification.VerificationService
import ThalosBackend.Kyc.KycService
import ThalosBackend.Kyc.RecordCoherence
import ThalosBackend.Kyc.SummaryCoherence
import ThalosBackend.Kyc.LateMessages
import ThalosBackend.Kyc.SumsubCorrelation
import ThalosBackend.AgreementChat.AgreementChatService
import ThalosBackend.Files.FileAccess
import ThalosBackend.Ramps.SessionBinding
import ThalosBackend.Wallets.PollarIdentity
import ThalosBackend.Agreements.TransitionValidators
import ThalosBackend.Verification.SummarySpec
import ThalosBackend.Common.Retry.QueueGuarantees
import ThalosBackend.Agreements.SyncIdempotence
import ThalosBackend.InternalTrustless.CreateEscrow
import ThalosBackend.AgreementChat.SendAtomicity
import ThalosBackend.RetryQueue.PollCycle
import ThalosBackend.RetryQueue.CompletionTimes
import ThalosBackend.Webhooks.MilestoneFrame
import ThalosBackend.Common.Filters.ValidationErrorFilter
import ThalosBackend.Notifications.NotifiedAmounts
import ThalosBackend.Profiles.EarningsOnce
import ThalosBackend.Wallets.ProofLineAgreement
import ThalosBackend.Wallets.SignedTexts
import ThalosBackend.Agreements.MilestoneEvents
import ThalosBackend.Agreements.Outsiders
import ThalosBackend.Agreements.AccountableLog
import ThalosBackend.Notifications.MailSafety
import ThalosBackend.RetryQueue.BoundedOvertaking
import ThalosBackend.AgreementChat.BucketIndex
import ThalosBackend.AgreementChat.SentAndRead
import ThalosBackend.Disputes.Confidentiality
import ThalosBackend.Js.Hex
import ThalosBackend.Kyc.IdentityProviders
import ThalosBackend.Kyc.VendorsWord
import ThalosBackend.RetryQueue.Provenance
import ThalosBackend.Webhooks.SignedEvents
