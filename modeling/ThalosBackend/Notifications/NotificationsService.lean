import ThalosBackend.Js.IsoDate
import ThalosBackend.Js.Text
import ThalosBackend.Library.Handlers
import ThalosBackend.Notifications.NotifiedAmounts

/-!
# The notifications service

`notifications/notifications.service.ts` and `notifications.listener.ts`: an event becomes a mail to
the participants of its agreement that have an address on their profile, and what came of it becomes
rows of `notification_logs`.

A query of Supabase or of Resend comes back with data or with an error, or it throws. What is thrown
outside a `try` ends the notification, and the listener catches it. The body of a mail is kept as
the template it is made of and the data the template gets.
-/

set_option autoImplicit false

namespace ThalosBackend.Notifications

open Js (FloatArithmetic Value nonEmpty trim)
open Calls (ask)
open Agreements (Agreement AgreementEvent)

/-! ## The data of the notifications -/

/-- `AgreementCreatedData`. -/
structure AgreementCreatedData where
  agreementId : String
  title : String
  description : Option String
  amount : String
  asset : String
  createdByWallet : String
  createdByName : Option String := none
  participantWallets : List String
  deriving DecidableEq

/-- `AgreementFundedData`. -/
structure AgreementFundedData where
  agreementId : String
  title : String
  amount : String
  asset : String
  fundedByWallet : String
  fundedByName : Option String := none
  transactionSignature : Option String := none
  deriving DecidableEq

/-- `EvidenceSubmittedData`. A milestone that a webhook has described holds any JSON value. -/
structure EvidenceSubmittedData where
  agreementId : String
  agreementTitle : String
  milestoneIndex : ℕ
  milestoneDescription : Value
  milestoneAmount : String
  asset : String
  submittedByWallet : String
  submittedByName : Option String := none
  evidenceDescription : Option String
  evidenceUrls : Option (List String)
  deriving DecidableEq

/-- `MilestoneApprovedData`. -/
structure MilestoneApprovedData where
  agreementId : String
  agreementTitle : String
  milestoneIndex : ℕ
  milestoneDescription : Value
  milestoneAmount : String
  asset : String
  approvedByWallet : String
  approvedByName : Option String := none
  deriving DecidableEq

/-- `MilestoneReleasedData`. -/
structure MilestoneReleasedData where
  agreementId : String
  agreementTitle : String
  milestoneIndex : ℕ
  milestoneDescription : Value
  milestoneAmount : String
  asset : String
  contractId : Option String
  serviceType : Option String
  actorWallet : String
  actorName : Option String := none
  evidence : Option String
  deriving DecidableEq

/-- `DisputeOpenedData`. -/
structure DisputeOpenedData where
  agreementId : String
  agreementTitle : String
  disputeReason : String
  openedByWallet : String
  openedByName : Option String := none
  deriving DecidableEq

/-- `AgreementCompletedData`. -/
structure AgreementCompletedData where
  agreementId : String
  title : String
  totalAmount : String
  asset : String
  completedAt : String
  deriving DecidableEq

/-- `DisputeOpenedEventPayload`. -/
structure DisputeOpenedEventPayload where
  disputeId : String
  agreementId : String
  openedByWallet : String
  reason : String
  deriving DecidableEq

/-! ## Mails and rows -/

/-- The templates, and what they are filled with. -/
inductive Html where
  | agreementCreatedTemplate (data : AgreementCreatedData)
  | agreementFundedTemplate (data : AgreementFundedData)
  | evidenceSubmittedTemplate (data : EvidenceSubmittedData)
  | milestoneApprovedTemplate (data : MilestoneApprovedData)
  | milestoneReleasedTemplate (data : MilestoneReleasedData)
  | disputeOpenedTemplate (data : DisputeOpenedData)
  | disputeResolvedTemplate (data : DisputeResolvedData)
  | agreementCompletedTemplate (data : AgreementCompletedData)
  | custom (html : String)
  deriving DecidableEq

/-- What Resend is given. -/
structure Mail where
  sender : String
  recipients : List String
  subject : String
  html : Html
  replyTo : String
  deriving DecidableEq

inductive NotificationStatus where
  | sent
  | failed
  | skipped
  deriving DecidableEq

/-- A row of `notification_logs`. -/
structure NotificationLog where
  agreementId : Option String
  eventType : String
  channel : String := "email"
  recipientEmail : Option String
  subject : Option String
  status : NotificationStatus
  errorMessage : Option String
  deriving DecidableEq

/-- The entry that `recordNotification` is given. -/
structure NotificationEntry where
  status : NotificationStatus
  eventType : String
  subject : Option String := none
  recipients : List String := []
  agreementId : Option String := none
  errorMessage : Option String := none
  deriving DecidableEq

/-- One row for each recipient, or one without a recipient. -/
def NotificationEntry.rows (entry : NotificationEntry) : List NotificationLog :=
  (if entry.recipients = [] then [none] else entry.recipients.map some).map fun email =>
    { agreementId := entry.agreementId
      eventType := entry.eventType
      recipientEmail := email
      subject := entry.subject
      status := entry.status
      errorMessage := entry.errorMessage }

/-- What a notification is about, for the log. -/
structure NotificationContext where
  eventType : String
  agreementId : Option String := none
  deriving DecidableEq

/-! ## The configuration -/

/-- `pickFromEnv(config, key, fallback)`. -/
def pickFromEnv (raw : Option String) (fallback : String) : String :=
  match raw with
  | none => fallback
  | some raw => if trim raw = "" then fallback else trim raw

/-- The environment variables that the service reads. -/
structure NotificationEnv where
  emailFrom : Option String
  emailReplyTo : Option String
  resendApiKey : Option String

namespace NotificationEnv

def fromEmail (env : NotificationEnv) : String :=
  pickFromEnv env.emailFrom "Thalos <notifications@thalosplatform.xyz>"

def replyTo (env : NotificationEnv) : String :=
  pickFromEnv env.emailReplyTo "Thalos <no-reply@thalosplatform.xyz>"

/-- There is a client to send with. -/
def resend (env : NotificationEnv) : Bool := (nonEmpty env.resendApiKey).isSome

end NotificationEnv

/-! ## Queries -/

/-- What a query comes back with. What is thrown may have a message. -/
inductive Outcome (α : Type) where
  | data (a : α)
  | error (message : String)
  | thrown (message : Option String)

/-- The columns of `profiles` that the service reads. -/
structure NotifiedProfile where
  walletAddress : String
  email : Option String
  displayName : Option String
  deriving DecidableEq

inductive NotificationCall where
  /-- The wallets of the participants of an agreement, but for one. -/
  | participantWallets (agreementId : String) (excludedWallet : Option String)
  /-- The profile of a wallet, by `maybeSingle`. -/
  | findProfile (wallet : String)
  /-- The agreement with an id, by `maybeSingle`. -/
  | findAgreement (id : String)
  | insertLogs (rows : List NotificationLog)
  /-- `resend.emails.send(mail)`. -/
  | send (mail : Mail)

/-- The data a query is answered with. -/
abbrev NotificationCall.answer : NotificationCall → Type
  | .participantWallets _ _ => List String
  | .findProfile _ => Option NotifiedProfile
  | .findAgreement _ => Option Agreement
  | .insertLogs _ | .send _ => Unit

abbrev NotificationCall.reply (c : NotificationCall) : Type := Outcome c.answer

/-- What ends a notification: a query that throws, or a value that has no text. -/
inductive Exception where
  | thrown (message : Option String)
  | typeError
  deriving DecidableEq

/-- A program of the service. -/
abbrev NotificationProgram := Calls Exception NotificationCall NotificationCall.reply

/-! ## Addresses -/

/-- `getEmailForWallet(wallet)`. -/
def getEmailForWallet (wallet : String) : NotificationProgram (Option String) := do
  match ← ask (NotificationCall.findProfile wallet) with
  | .data profile => return nonEmpty (profile.bind NotifiedProfile.email)
  | .error _ => return none
  | .thrown message => .fail (.thrown message)

/-- The addresses of wallets, in their order. -/
def emailsOf : List String → NotificationProgram (List String)
  | [] => return []
  | wallet :: rest => do
    let email ← getEmailForWallet wallet
    let emails ← emailsOf rest
    return email.toList ++ emails

/-- `getParticipantEmails(agreementId, excludedWallet)`. -/
def getParticipantEmails (agreementId : String) (excludedWallet : Option String) :
    NotificationProgram (List String) := do
  match ← ask (NotificationCall.participantWallets agreementId (nonEmpty excludedWallet)) with
  | .data wallets => emailsOf wallets
  | .error _ => return []
  | .thrown message => .fail (.thrown message)

/-! ## Sending -/

/-- `recordNotification(entry)`. An error and what is thrown are only logged. -/
def recordNotification (entry : NotificationEntry) : NotificationProgram Unit := do
  let _ ← ask (NotificationCall.insertLogs entry.rows)
  return ()

/-- `sendEmail(to, subject, html, context)`. -/
def sendEmail (env : NotificationEnv) (recipients : List String) (subject : String) (html : Html)
    (context : NotificationContext) : NotificationProgram Bool := do
  let entry : NotificationEntry :=
    { status := .sent
      eventType := context.eventType
      subject := some subject
      recipients
      agreementId := context.agreementId }
  if !env.resend then
    recordNotification { entry with
      status := .skipped, errorMessage := some "RESEND_API_KEY not configured" }
    return false
  else if recipients.isEmpty then
    recordNotification { entry with
      status := .skipped
      errorMessage := some "No recipient had an email address on their profile" }
    return false
  else
    let mail : Mail := ⟨env.fromEmail, recipients, subject, html, env.replyTo⟩
    match ← ask (NotificationCall.send mail) with
    | .data _ =>
      recordNotification entry
      return true
    | .error message =>
      recordNotification { entry with status := .failed, errorMessage := some message }
      return false
    | .thrown message =>
      recordNotification { entry with
        status := .failed, errorMessage := some (message.getD "Unknown error") }
      return false

/-- What the notifications share: the participants are found, and get a mail if somebody has an
address. The content is made of the data only then, and may throw. -/
def notifyParticipants (env : NotificationEnv) (eventType agreementId : String)
    (excludedWallet : Option String) (content : Option (String × Html)) :
    NotificationProgram Unit := do
  let emails ← getParticipantEmails agreementId excludedWallet
  if emails.isEmpty then
    recordNotification
      { eventType
        agreementId := some agreementId
        status := .skipped
        errorMessage := some "No participant had an email address on their profile" }
  else
    match content with
    | none => .fail .typeError
    | some (subject, html) =>
      let _ ← sendEmail env emails subject html ⟨eventType, some agreementId⟩
      return ()

/-! ## The notifications -/

section Notify

variable (env : NotificationEnv)

def notifyAgreementCreated (data : AgreementCreatedData) : NotificationProgram Unit :=
  notifyParticipants env "agreement_created" data.agreementId none
    (some ("New Agreement Created: " ++ data.title, .agreementCreatedTemplate data))

def notifyAgreementFunded (data : AgreementFundedData) : NotificationProgram Unit :=
  notifyParticipants env "agreement_funded" data.agreementId none
    (some ("Agreement Funded: " ++ data.title, .agreementFundedTemplate data))

-- the template shows the description of the milestone, whatever value that is
def notifyEvidenceSubmitted (data : EvidenceSubmittedData) (excludedWallet : Option String) :
    NotificationProgram Unit :=
  notifyParticipants env "evidence_submitted" data.agreementId excludedWallet
    (data.milestoneDescription.toText.map fun _ =>
      ("Evidence Submitted: " ++ data.agreementTitle, .evidenceSubmittedTemplate data))

def notifyMilestoneApproved (data : MilestoneApprovedData) : NotificationProgram Unit :=
  notifyParticipants env "milestone_approved" data.agreementId none
    (data.milestoneDescription.toText.map fun text =>
      ("Milestone Approved: " ++ text, .milestoneApprovedTemplate data))

def notifyMilestoneReleased (data : MilestoneReleasedData) : NotificationProgram Unit :=
  notifyParticipants env "milestone_released" data.agreementId none
    (data.milestoneDescription.toText.map fun text =>
      ("Payment Released: " ++ text, .milestoneReleasedTemplate data))

def notifyDisputeOpened (data : DisputeOpenedData) : NotificationProgram Unit :=
  notifyParticipants env "dispute_opened" data.agreementId none
    (some ("Dispute Opened: " ++ data.agreementTitle, .disputeOpenedTemplate data))

def notifyDisputeResolved (data : DisputeResolvedData) : NotificationProgram Unit :=
  notifyParticipants env "dispute_resolved" data.agreementId none
    (some ("Dispute Resolved: " ++ data.agreementTitle, .disputeResolvedTemplate data))

def notifyAgreementCompleted (data : AgreementCompletedData) : NotificationProgram Unit :=
  notifyParticipants env "agreement_completed" data.agreementId none
    (some ("Agreement Completed: " ++ data.title, .agreementCompletedTemplate data))

/-- `sendCustomNotification(wallets, subject, html)`. -/
def sendCustomNotification (wallets : List String) (subject html : String) :
    NotificationProgram Unit := do
  let emails ← emailsOf wallets
  if emails.isEmpty then
    recordNotification
      { eventType := "custom"
        status := .skipped
        subject := some subject
        errorMessage := some "None of the given wallets had an email address" }
  else
    let _ ← sendEmail env emails subject (.custom html) ⟨"custom", none⟩
    return ()

/-- The data of a query, with its error left aside; what is thrown is thrown on. -/
def dataOf {α : Type} (outcome : Outcome (Option α)) : NotificationProgram (Option α) :=
  match outcome with
  | .data a => return a
  | .error _ => return none
  | .thrown message => .fail (.thrown message)

/-- `handleDisputeOpened(payload)`. -/
def disputeOpened (payload : DisputeOpenedEventPayload) : NotificationProgram Unit := do
  match ← dataOf (← ask (NotificationCall.findAgreement payload.agreementId)) with
  | none => return ()
  | some agreement =>
    let openerProfile ← dataOf (← ask (NotificationCall.findProfile payload.openedByWallet))
    notifyDisputeOpened env
      { agreementId := payload.agreementId
        agreementTitle := agreement.title
        disputeReason := payload.reason
        openedByWallet := payload.openedByWallet
        openedByName := openerProfile.bind NotifiedProfile.displayName }

/-- What `handleDisputeResolved` makes of the agreement it has found. -/
def resolvedData (F : FloatArithmetic) (payload : DisputeResolvedEventPayload) (ag : Agreement) :
    DisputeResolvedData :=
  let totalAmount := F.parseFloat ag.amount
  { agreementId := payload.agreementId
    agreementTitle := ag.title
    resolution := (nonEmpty payload.resolutionNotes).getD "Dispute has been resolved"
    resolvedByWallet := payload.resolvedByWallet
    refundAmount := shareText F totalAmount payload.payerPercentage
    releaseAmount := shareText F totalAmount payload.payeePercentage
    asset := ag.asset }

/-- `handleDisputeResolved(payload)`. -/
def disputeResolved (F : FloatArithmetic) (payload : DisputeResolvedEventPayload) :
    NotificationProgram Unit := do
  match ← dataOf (← ask (NotificationCall.findAgreement payload.agreementId)) with
  | none => return ()
  | some ag => notifyDisputeResolved env (resolvedData F payload ag)

end Notify

/-! ## The listener -/

/-- What is notified of an event. -/
def notificationOf (env : NotificationEnv) (F : FloatArithmetic) (event : AgreementEvent) :
    NotificationProgram Unit :=
  match event with
  | .created agreementId title description amount asset createdByWallet participantWallets =>
    notifyAgreementCreated env
      { agreementId, title, description, amount, asset, createdByWallet, participantWallets }
  | .funded agreementId title amount asset fundedByWallet =>
    notifyAgreementFunded env { agreementId, title, amount, asset, fundedByWallet }
  | .completed agreementId title totalAmount asset completedAt =>
    notifyAgreementCompleted env
      { agreementId, title, totalAmount, asset, completedAt := Js.isoText completedAt }
  | .evidenceSubmitted agreementId agreementTitle milestoneIndex milestoneDescription
      milestoneAmount asset submittedByWallet evidenceDescription evidenceUrls =>
    notifyEvidenceSubmitted env
      { agreementId, agreementTitle, milestoneIndex, milestoneDescription, milestoneAmount, asset
        submittedByWallet, evidenceDescription, evidenceUrls } (some submittedByWallet)
  | .milestoneApproved agreementId agreementTitle milestoneIndex milestoneDescription
      milestoneAmount asset approvedByWallet _ _ =>
    notifyMilestoneApproved env
      { agreementId, agreementTitle, milestoneIndex, milestoneDescription, milestoneAmount, asset
        approvedByWallet }
  | .milestoneReleased agreementId agreementTitle milestoneIndex milestoneDescription
      milestoneAmount asset contractId serviceType actorWallet evidence =>
    notifyMilestoneReleased env
      { agreementId, agreementTitle, milestoneIndex, milestoneDescription, milestoneAmount, asset
        contractId, serviceType, actorWallet, evidence }
  | .disputeOpened disputeId agreementId openedByWallet reason =>
    disputeOpened env { disputeId, agreementId, openedByWallet, reason }
  | .disputeResolved _ agreementId resolvedByWallet payerPercentage payeePercentage
      resolutionNotes =>
    disputeResolved env F
      { agreementId, resolvedByWallet, payerPercentage, payeePercentage, resolutionNotes }
  | .notifyDisputeOpened agreementId agreementTitle disputeReason openedByWallet =>
    notifyDisputeOpened env { agreementId, agreementTitle, disputeReason, openedByWallet }

/-- What becomes of an event. Those of the event emitter go through `NotificationsListener`, and the
last one is `dispatchNotification` of the webhooks; both catch what is thrown. -/
def onEvent (env : NotificationEnv) (F : FloatArithmetic) (event : AgreementEvent) :
    NotificationProgram Unit :=
  Calls.caught (notificationOf env F event)

end ThalosBackend.Notifications
