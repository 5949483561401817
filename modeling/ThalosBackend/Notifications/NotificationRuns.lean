import ThalosBackend.Agreements.Mediation
import ThalosBackend.Library.Handlers
import ThalosBackend.Notifications.NotificationsService

/-!
# Mails and the log that tells of them

Events are handled at the same time, and any query of a handler may fail or throw; Resend may even
accept a mail and throw. A handler asks for one mail at most, to addresses that the profiles of the
agreement's participants hold, and `notification_logs` never calls a mail sent that Resend did not
accept.

`Account` is what a handler that has ended has done, in all detail. It leaves a row behind unless the
agreement of its dispute could not be read, something threw while the addresses were looked up, or a
description had no text.
-/

set_option autoImplicit false

namespace ThalosBackend.Notifications

open Js (FloatArithmetic nonEmpty)
open Calls (Answered Attests Handles Held Serving Task ask historyOf)
open Agreements (Agreement AgreementEvent Participant)
open Threads (Config Label)

/-! ## What the event says -/

/-- The type that the log names. -/
def eventType : AgreementEvent → String
  | .created _ _ _ _ _ _ _ => "agreement_created"
  | .funded _ _ _ _ _ => "agreement_funded"
  | .completed _ _ _ _ _ => "agreement_completed"
  | .evidenceSubmitted _ _ _ _ _ _ _ _ _ => "evidence_submitted"
  | .milestoneApproved _ _ _ _ _ _ _ _ _ => "milestone_approved"
  | .milestoneReleased _ _ _ _ _ _ _ _ _ _ => "milestone_released"
  | .disputeOpened _ _ _ _ | .notifyDisputeOpened _ _ _ _ => "dispute_opened"
  | .disputeResolved _ _ _ _ _ _ => "dispute_resolved"

/-- The wallet that is not told: whoever has submitted the evidence. -/
def excludedWallet : AgreementEvent → Option String
  | .evidenceSubmitted _ _ _ _ _ _ submittedByWallet _ _ => nonEmpty (some submittedByWallet)
  | _ => none

/-- The description of the milestone has no text. -/
def unprintable : AgreementEvent → Bool
  | .evidenceSubmitted _ _ _ description _ _ _ _ _ | .milestoneApproved _ _ _ description _ _ _ _ _
  | .milestoneReleased _ _ _ description _ _ _ _ _ _ => description.toText.isNone
  | _ => false

/-! ## The store -/

/-- The tables that handlers read, the log they write, and what Resend has accepted for which event. -/
structure NotificationStore where
  participants : List Participant
  profiles : List NotifiedProfile
  agreements : List Agreement
  logs : List NotificationLog
  accepted : List (AgreementEvent × Mail)

/-- The wallet is that of a participant of the event's agreement who is to be told. -/
def IsTold (s : NotificationStore) (event : AgreementEvent) (wallet : String) : Prop :=
  excludedWallet event ≠ some wallet ∧
    ∃ p ∈ s.participants, p.agreementId = event.agreementId ∧ p.walletAddress = wallet

/-- The profile of the wallet holds the address. -/
def HasAddress (s : NotificationStore) (wallet email : String) : Prop :=
  ∃ profile ∈ s.profiles, profile.walletAddress = wallet ∧ profile.email = some email

/-- The address is that of somebody who is to be told. -/
def IsAddressFor (s : NotificationStore) (event : AgreementEvent) (email : String) : Prop :=
  ∃ wallet, IsTold s event wallet ∧ HasAddress s wallet email

/-- What a query does for the handler of an event. What throws may have had its effect. -/
def Executes (event : AgreementEvent) (c : NotificationCall) (s : NotificationStore) (x : c.reply)
    (s' : NotificationStore) : Prop :=
  match c with
  | .participantWallets agreementId excluded => s' = s ∧ ∀ wallets, x = .data wallets →
      wallets.Perm ((s.participants.filter fun p =>
        p.agreementId = agreementId ∧ excluded ≠ some p.walletAddress).map Participant.walletAddress)
  | .findProfile wallet => s' = s ∧ ∀ found, x = .data found →
      Wallets.maybeSingle (s.profiles.filter fun p => p.walletAddress = wallet) = .ok found
  | .findAgreement id => s' = s ∧ ∀ found, x = .data found →
      Wallets.maybeSingle (s.agreements.filter fun a => a.id = id) = .ok found
  | .insertLogs rows => match x with
    | .data _ => s' = { s with logs := s.logs ++ rows }
    | .error _ => s' = s
    | .thrown _ => s' = s ∨ s' = { s with logs := s.logs ++ rows }
  | .send mail => match x with
    | .data _ => s' = { s with accepted := (event, mail) :: s.accepted }
    | .error _ => s' = s
    | .thrown _ => s' = s ∨ s' = { s with accepted := (event, mail) :: s.accepted }

/-- The queries of a handler and what came back, the latest first. -/
abbrev NotificationHistory := Answered NotificationCall NotificationCall.reply

/-- Events are handled at the same time. -/
def handling (env : NotificationEnv) (F : FloatArithmetic) :
    Serving AgreementEvent (Exception × NotificationHistory) (NotificationCall × NotificationHistory)
      (fun c => c.1.reply) (Unit × NotificationHistory) NotificationStore Unit Empty where
  init s := s.logs = [] ∧ s.accepted = []
  program event := Calls.traced (onEvent env F event) []
  exec _ event c s x s' := Executes event c.1 s x s'
  env b _ _ := nomatch b

abbrev NotificationTask := Task AgreementEvent (Exception × NotificationHistory)
  (NotificationCall × NotificationHistory) (fun c => c.1.reply) (Unit × NotificationHistory)

abbrev NotificationConfig := Config NotificationStore ℕ NotificationTask

/-- The step system of the handlers. -/
def handlingSystem (env : NotificationEnv) (F : FloatArithmetic) :
    StepSystem NotificationConfig (Label ℕ NotificationTask Unit Empty) :=
  (handling env F).threads.system ℕ

/-! ## What replies say -/

/-- What a reply says of every store from then on. -/
def Tells (event : AgreementEvent) : (c : NotificationCall) → c.reply → NotificationStore → Prop
  | .participantWallets agreementId excluded, .data wallets, s =>
      ∀ w ∈ wallets, ∃ p ∈ s.participants, p.agreementId = agreementId ∧ p.walletAddress = w ∧
        excluded ≠ some w
  | .findProfile wallet, .data (some profile), s =>
      profile ∈ s.profiles ∧ profile.walletAddress = wallet
  | .insertLogs rows, .data _, s => ∀ row ∈ rows, row ∈ s.logs
  | .send mail, .data _, s => (event, mail) ∈ s.accepted
  | _, _, _ => True

section Queries

variable {event : AgreementEvent} {c : NotificationCall} {s s' : NotificationStore} {x : c.reply}

/-- The tables stay, and the log and what was accepted only grow. -/
structure Grows (s s' : NotificationStore) : Prop where
  participants : s'.participants = s.participants
  profiles : s'.profiles = s.profiles
  logs : ∀ row ∈ s.logs, row ∈ s'.logs
  accepted : ∀ a ∈ s.accepted, a ∈ s'.accepted

theorem Grows.refl (s : NotificationStore) : Grows s s := ⟨rfl, rfl, fun _ h => h, fun _ h => h⟩

theorem grows_logs (rows : List NotificationLog) : Grows s { s with logs := s.logs ++ rows } :=
  ⟨rfl, rfl, fun _ h => List.mem_append_left _ h, fun _ h => h⟩

theorem grows_accepted (a : AgreementEvent × Mail) :
    Grows s { s with accepted := a :: s.accepted } :=
  ⟨rfl, rfl, fun _ h => h, fun _ h => List.mem_cons_of_mem _ h⟩

theorem Executes.grows (h : Executes event c s x s') : Grows s s' := by
  cases c with
  | participantWallets agreementId excluded => exact h.1 ▸ .refl s
  | findProfile wallet => exact h.1 ▸ .refl s
  | findAgreement id => exact h.1 ▸ .refl s
  | insertLogs rows =>
      cases x with
      | data _ => exact h ▸ grows_logs rows
      | error _ => exact h ▸ .refl s
      | thrown _ =>
          rcases h with rfl | rfl
          · exact .refl _
          · exact grows_logs rows
  | send mail =>
      cases x with
      | data _ => exact h ▸ grows_accepted _
      | error _ => exact h ▸ .refl s
      | thrown _ =>
          rcases h with rfl | rfl
          · exact .refl _
          · exact grows_accepted _

/-- A reply is right about the store it leaves. -/
theorem Executes.tells (h : Executes event c s x s') : Tells event c x s' := by
  cases c with
  | participantWallets agreementId excluded =>
      obtain ⟨rfl, hwallets⟩ := h
      cases x with
      | data wallets =>
          intro w hw
          obtain ⟨p, hp, rfl⟩ := List.mem_map.mp ((hwallets wallets rfl).mem_iff.mp hw)
          obtain ⟨hp, hcond⟩ := List.mem_filter.mp hp
          have hcond : p.agreementId = agreementId ∧ excluded ≠ some p.walletAddress := by
            simpa using hcond
          exact ⟨p, hp, hcond.1, rfl, hcond.2⟩
      | error _ => trivial
      | thrown _ => trivial
  | findProfile wallet =>
      obtain ⟨rfl, hfound⟩ := h
      rcases x with (_ | profile) | _ | _
      · trivial
      · have hrows := Agreements.maybeSingle_eq_ok (hfound _ rfl)
        have hmem : profile ∈ s'.profiles.filter fun p => p.walletAddress = wallet := by
          rw [hrows]
          exact List.mem_singleton_self _
        obtain ⟨hprofile, hwallet⟩ := List.mem_filter.mp hmem
        exact ⟨hprofile, of_decide_eq_true hwallet⟩
      · trivial
      · trivial
  | findAgreement id => trivial
  | insertLogs rows =>
      cases x with
      | data _ =>
          obtain rfl := h
          intro row hrow
          exact List.mem_append_right _ hrow
      | error _ => trivial
      | thrown _ => trivial
  | send mail =>
      cases x with
      | data _ =>
          obtain rfl := h
          exact List.mem_cons_self
      | error _ => trivial
      | thrown _ => trivial

/-- What was said stays right. -/
theorem Grows.tells (h : Grows s s') (htells : Tells event c x s) : Tells event c x s' := by
  cases c with
  | participantWallets agreementId excluded =>
      cases x with
      | data wallets =>
          intro w hw
          rw [h.participants]
          exact htells w hw
      | error _ => trivial
      | thrown _ => trivial
  | findProfile wallet =>
      rcases x with (_ | profile) | _ | _
      · trivial
      · exact ⟨h.profiles ▸ htells.1, htells.2⟩
      · trivial
      · trivial
  | findAgreement id => trivial
  | insertLogs rows =>
      cases x with
      | data _ => exact fun row hrow => h.logs row (htells row hrow)
      | error _ => trivial
      | thrown _ => trivial
  | send mail =>
      cases x with
      | data _ => exact h.accepted _ htells
      | error _ => trivial
      | thrown _ => trivial

theorem IsAddressFor.grows {email : String} (h : IsAddressFor s event email) (hgrows : Grows s s') :
    IsAddressFor s' event email := by
  obtain ⟨wallet, ⟨hexcluded, p, hp, htold⟩, profile, hprofile, haddress⟩ := h
  exact ⟨wallet, ⟨hexcluded, p, hgrows.participants ▸ hp, htold⟩, profile,
    hgrows.profiles ▸ hprofile, haddress⟩

end Queries

/-! ## What a handler leaves behind -/

/-- Queries that only look something up. -/
def NotificationCall.isLookup : NotificationCall → Bool
  | .insertLogs _ | .send _ => false
  | _ => true

/-- The handler has only looked things up. -/
def OnlyLookups (history : NotificationHistory) : Prop := ∀ e ∈ history, e.1.isLookup = true

/-- What is recorded when nothing is sent, and why. -/
def skippedEntry (event : AgreementEvent) (why : String) (subject : Option String)
    (recipients : List String) : NotificationEntry :=
  { status := .skipped
    eventType := eventType event
    subject
    recipients
    agreementId := some event.agreementId
    errorMessage := some why }

/-- What is recorded of an attempt, by what came back. -/
def attemptEntry (event : AgreementEvent) (mail : Mail) (outcome : Outcome Unit) :
    NotificationEntry :=
  let entry : NotificationEntry :=
    { status := .sent
      eventType := eventType event
      subject := some mail.subject
      recipients := mail.recipients
      agreementId := some event.agreementId }
  match outcome with
  | .data _ => entry
  | .error message => { entry with status := .failed, errorMessage := some message }
  | .thrown message =>
    { entry with status := .failed, errorMessage := some (message.getD "Unknown error") }

theorem attemptEntry_sent {event : AgreementEvent} {mail : Mail} {outcome : Outcome Unit}
    (h : (attemptEntry event mail outcome).status = .sent) : outcome = .data () := by
  cases outcome with
  | data _ => rfl
  | error message => cases h
  | thrown message => cases h

/-- The rows of an entry have its status. -/
theorem status_of_mem_rows {entry : NotificationEntry} {row : NotificationLog}
    (h : row ∈ entry.rows) : row.status = entry.status := by
  obtain ⟨email, -, rfl⟩ := List.mem_map.mp h
  rfl

/-- Why a handler leaves no row behind. -/
inductive GivesUp (event : AgreementEvent) (history : NotificationHistory) : Prop where
  | thrown (c : NotificationCall) (message : Option String) :
      (⟨c, .thrown message⟩ : (c : NotificationCall) × c.reply) ∈ history → GivesUp event history
  | unprintable : unprintable event = true → GivesUp event history
  | notFound (id : String) : ⟨.findAgreement id, .data none⟩ ∈ history → GivesUp event history
  | notRead (id message : String) :
      ⟨.findAgreement id, .error message⟩ ∈ history → GivesUp event history

/-- The address that a lookup has given. -/
def addressFound : (c : NotificationCall) × c.reply → Option String
  | ⟨.findProfile _, .data profile⟩ => nonEmpty (profile.bind NotifiedProfile.email)
  | _ => none

theorem addressFound_concat (found : NotificationHistory)
    (e : (c : NotificationCall) × c.reply) :
    (found ++ [e]).reverse.filterMap addressFound =
      (addressFound e).toList ++ found.reverse.filterMap addressFound := by
  rw [List.reverse_append, List.reverse_singleton, List.singleton_append, List.filterMap_cons]
  cases addressFound e with
  | none => rfl
  | some address => rfl

/-- The addresses that the lookups have given of those the event is to be told to. -/
inductive Found (event : AgreementEvent) : NotificationHistory → List String → Prop where
  /-- The participants could not be read. -/
  | unread (before : NotificationHistory) (message : String) :
      Found event (⟨.participantWallets event.agreementId (excludedWallet event),
        .error message⟩ :: before) []
  /-- The profile of each of them was looked up. -/
  | addresses (before found : NotificationHistory) (wallets : List String) :
      found.reverse.map Sigma.fst = wallets.map NotificationCall.findProfile →
      Found event (found ++ ⟨.participantWallets event.agreementId (excludedWallet event),
        .data wallets⟩ :: before) (found.reverse.filterMap addressFound)

/-- What a handler that has ended has done, in all. -/
inductive Account (env : NotificationEnv) (event : AgreementEvent) : NotificationHistory → Prop where
  /-- Nothing but lookups, for a reason. -/
  | unreported (lookups : NotificationHistory) : OnlyLookups lookups → GivesUp event lookups →
      Account env event lookups
  /-- No lookup gave an address. -/
  | nobody (lookups : NotificationHistory) (y : Outcome Unit) : OnlyLookups lookups →
      Found event lookups [] →
      Account env event (⟨.insertLogs (skippedEntry event
        "No participant had an email address on their profile" none []).rows, y⟩ :: lookups)
  /-- There is no client to send with. -/
  | unconfigured (lookups : NotificationHistory) (subject : String) (recipients : List String)
      (y : Outcome Unit) : OnlyLookups lookups → Found event lookups recipients →
      env.resend = false → recipients ≠ [] →
      Account env event (⟨.insertLogs (skippedEntry event "RESEND_API_KEY not configured"
        (some subject) recipients).rows, y⟩ :: lookups)
  /-- One mail, and then what came of it. -/
  | attempted (lookups : NotificationHistory) (mail : Mail) (x y : Outcome Unit) :
      OnlyLookups lookups → Found event lookups mail.recipients → env.resend = true →
      Account env event (⟨.insertLogs (attemptEntry event mail x).rows, y⟩ ::
        ⟨.send mail, x⟩ :: lookups)

/-- When a query is asked. -/
def Permitted (env : NotificationEnv) (event : AgreementEvent) :
    NotificationCall → NotificationHistory → Prop
  | .send mail, history => OnlyLookups history ∧ env.resend = true ∧ mail.sender = env.fromEmail ∧
      mail.replyTo = env.replyTo ∧ mail.recipients ≠ [] ∧
      ∀ email ∈ mail.recipients, Attests (Tells event) history fun s => IsAddressFor s event email
  | .insertLogs rows, history => (OnlyLookups history ∧ ∀ row ∈ rows, row.status = .skipped) ∨
      ∃ mail x before, history = ⟨.send mail, x⟩ :: before ∧ OnlyLookups before ∧
        rows = (attemptEntry event mail x).rows
  | _, history => OnlyLookups history

/-- The rule that the handler of an event keeps to. -/
abbrev Accountable (env : NotificationEnv) (event : AgreementEvent) :
    NotificationProgram Unit → NotificationHistory → Prop :=
  Handles (Permitted env event) (Account env event)

section Programs

variable {env : NotificationEnv} {event : AgreementEvent} {history : NotificationHistory}

theorem OnlyLookups.cons {c : NotificationCall} {x : c.reply} (h : OnlyLookups history)
    (hc : c.isLookup = true) : OnlyLookups (⟨c, x⟩ :: history) :=
  List.forall_mem_cons.mpr ⟨hc, h⟩

/-- Something thrown ends a handler that has only looked things up. -/
theorem accountable_thrown {c : NotificationCall} {message : Option String} {e : Exception}
    (h : OnlyLookups (⟨c, .thrown message⟩ :: history)) :
    Accountable env event (.fail e) (⟨c, .thrown message⟩ :: history) :=
  Calls.conducts_fail.mpr (.unreported _ h (.thrown c message List.mem_cons_self))

theorem accountable_getEmailForWallet {wallet : String}
    {f : Option String → NotificationProgram Unit} (h : OnlyLookups history)
    (hf : ∀ x, OnlyLookups (⟨.findProfile wallet, x⟩ :: history) →
      (∀ a ∈ addressFound ⟨.findProfile wallet, x⟩, Attests (Tells event)
        (⟨.findProfile wallet, x⟩ :: history) fun s => HasAddress s wallet a) →
      Accountable env event (f (addressFound ⟨.findProfile wallet, x⟩))
        (⟨.findProfile wallet, x⟩ :: history)) :
    Accountable env event (getEmailForWallet wallet >>= f) history := by
  rw [getEmailForWallet, Calls.bind_assoc]
  apply Calls.conducts_ask h
  intro x
  have hlookups : OnlyLookups (⟨.findProfile wallet, x⟩ :: history) := h.cons rfl
  cases x with
  | data profile =>
      apply hf _ hlookups
      intro a ha
      cases profile with
      | none => cases ha
      | some profile =>
          apply Calls.attests_last
          rintro s ⟨hprofile, hwallet⟩
          exact ⟨profile, hprofile, hwallet, Js.nonEmpty_eq_some.mp ha |>.1⟩
  | error message =>
      apply hf _ hlookups
      intro a ha
      cases ha
  | thrown message => exact accountable_thrown hlookups

/-- Every address that is found is one of the wallets'. The induction is on the wallets, with what
comes after them left open. -/
theorem accountable_emailsOf {wallets : List String} {f : List String → NotificationProgram Unit}
    (h : OnlyLookups history)
    (hf : ∀ found, found.reverse.map Sigma.fst = wallets.map NotificationCall.findProfile →
      OnlyLookups (found ++ history) →
      (∀ a ∈ found.reverse.filterMap addressFound, ∃ w ∈ wallets,
        Attests (Tells event) (found ++ history) fun s => HasAddress s w a) →
      Accountable env event (f (found.reverse.filterMap addressFound)) (found ++ history)) :
    Accountable env event (emailsOf wallets >>= f) history := by
  induction wallets generalizing history f with
  | nil => exact hf [] rfl h (List.forall_mem_nil _)
  | cons wallet rest ih =>
      rw [emailsOf, Calls.bind_assoc]
      apply accountable_getEmailForWallet h
      intro x h₁ hemail
      rw [Calls.bind_assoc]
      apply ih h₁
      intro found hcalls h₂ hemails
      -- the profile of the first wallet is the oldest of what has been found
      rw [Calls.pure_eq, Calls.done_bind, ← addressFound_concat,
        List.append_cons found _ history]
      apply hf
      · rw [List.reverse_append, List.map_append, hcalls]
        rfl
      · rwa [← List.append_cons]
      · intro a ha
        rw [addressFound_concat] at ha
        rw [← List.append_cons]
        rcases List.mem_append.mp ha with ha | ha
        · exact ⟨wallet, List.mem_cons_self,
            (hemail a (Option.mem_toList.mp ha)).extend (List.suffix_append found _)⟩
        · obtain ⟨w, hw, haddress⟩ := hemails a ha
          exact ⟨w, List.mem_cons_of_mem _ hw, haddress⟩

theorem accountable_getParticipantEmails {excluded : Option String}
    {f : List String → NotificationProgram Unit} (h : OnlyLookups history)
    (hexcluded : nonEmpty excluded = excludedWallet event)
    (hf : ∀ emails history', OnlyLookups history' → Found event history' emails →
      (∀ a ∈ emails, Attests (Tells event) history' fun s => IsAddressFor s event a) →
      Accountable env event (f emails) history') :
    Accountable env event (getParticipantEmails event.agreementId excluded >>= f) history := by
  rw [getParticipantEmails, hexcluded, Calls.bind_assoc]
  apply Calls.conducts_ask h
  intro x
  have hlookups : OnlyLookups
      (⟨.participantWallets event.agreementId (excludedWallet event), x⟩ :: history) := h.cons rfl
  cases x with
  | data wallets =>
      apply accountable_emailsOf hlookups
      intro found hcalls h' hemails
      apply hf _ _ h' (.addresses history found wallets hcalls)
      intro a ha s hs
      obtain ⟨w, hw, haddress⟩ := hemails a ha
      obtain ⟨p, hp, hagreement, hwallet, hne⟩ :=
        (Calls.held_cons.mp (hs.of_suffix (List.suffix_append found _))).1 w hw
      exact ⟨w, ⟨hne, p, hp, hagreement, hwallet⟩, haddress s hs⟩
  | error message =>
      apply hf [] _ hlookups (.unread history message)
      exact List.forall_mem_nil _
  | thrown message => exact accountable_thrown hlookups

/-- The last thing a handler does is to record. -/
theorem accountable_record {entry : NotificationEntry} {f : Unit → NotificationProgram Unit}
    (hf : f () = .done ()) (hc : Permitted env event (.insertLogs entry.rows) history)
    (hend : ∀ y, Account env event (⟨.insertLogs entry.rows, y⟩ :: history)) :
    Accountable env event (recordNotification entry >>= f) history := by
  rw [recordNotification, Calls.bind_assoc]
  apply Calls.conducts_ask hc
  intro y
  rw [Calls.pure_eq, Calls.done_bind, hf]
  exact Calls.conducts_done.mpr (hend y)

theorem accountable_sendEmail {recipients : List String} {subject : String} {html : Html}
    {f : Bool → NotificationProgram Unit} (hf : ∀ b, f b = .done ()) (h : OnlyLookups history)
    (hfound : Found event history recipients) (hrecipients : recipients ≠ [])
    (haddresses : ∀ a ∈ recipients,
      Attests (Tells event) history fun s => IsAddressFor s event a) :
    Accountable env event
      (sendEmail env recipients subject html ⟨eventType event, some event.agreementId⟩ >>= f)
      history := by
  rw [sendEmail]
  cases hresend : env.resend with
  | false =>
      rw [Bool.not_false, if_pos rfl, Calls.bind_assoc]
      apply accountable_record (hf false)
      · refine .inl ⟨h, fun row hrow => ?_⟩
        exact status_of_mem_rows hrow
      · intro y
        exact .unconfigured history subject recipients y h hfound hresend hrecipients
  | true =>
      have hsome : recipients.isEmpty = false := by simpa using hrecipients
      rw [Bool.not_true, if_neg Bool.false_ne_true, hsome, if_neg Bool.false_ne_true,
        Calls.bind_assoc]
      apply Calls.conducts_ask ⟨h, hresend, rfl, rfl, hrecipients, haddresses⟩
      intro x
      let mail : Mail := ⟨env.fromEmail, recipients, subject, html, env.replyTo⟩
      -- whatever has come of the mail, the next and last thing is to record it
      cases x with
      | data _ =>
          rw [Calls.bind_assoc]
          apply accountable_record (hf true)
          · exact .inr ⟨_, .data (), history, rfl, h, rfl⟩
          · intro y
            exact .attempted history mail (.data ()) y h hfound hresend
      | error message =>
          rw [Calls.bind_assoc]
          apply accountable_record (hf false)
          · exact .inr ⟨_, .error message, history, rfl, h, rfl⟩
          · intro y
            exact .attempted history mail (.error message) y h hfound hresend
      | thrown message =>
          rw [Calls.bind_assoc]
          apply accountable_record (hf false)
          · exact .inr ⟨_, .thrown message, history, rfl, h, rfl⟩
          · intro y
            exact .attempted history mail (.thrown message) y h hfound hresend

/-- The content may be missing only if the event is one that cannot be printed. -/
theorem accountable_notifyParticipants {excluded : Option String} {content : Option (String × Html)}
    (h : OnlyLookups history) (hexcluded : nonEmpty excluded = excludedWallet event)
    (hcontent : content = none → unprintable event = true) :
    Accountable env event
      (notifyParticipants env (eventType event) event.agreementId excluded content) history := by
  rw [notifyParticipants]
  apply accountable_getParticipantEmails h hexcluded
  intro emails history' h' hfound hemails
  cases emails with
  | nil =>
      apply accountable_record (f := .done) rfl
      · refine .inl ⟨h', fun row hrow => ?_⟩
        exact status_of_mem_rows hrow
      · intro y
        exact .nobody history' y h' hfound
  | cons email rest =>
      cases content with
      | none => exact Calls.conducts_fail.mpr (.unreported history' h' (.unprintable (hcontent rfl)))
      | some content =>
          exact accountable_sendEmail (fun _ => rfl) h' hfound (List.cons_ne_nil _ _) hemails

/-- The agreement of a dispute. If there is none to be read, that is the end. -/
theorem accountable_findAgreement {id : String} {f : Option Agreement → NotificationProgram Unit}
    (h : OnlyLookups history) (hnone : f none = .done ())
    (hsome : ∀ agreement history', OnlyLookups history' →
      Accountable env event (f (some agreement)) history') :
    Accountable env event (ask (NotificationCall.findAgreement id) >>=
      fun x : Outcome (Option Agreement) => dataOf x >>= f) history := by
  apply Calls.conducts_ask h
  intro x
  have hlookups : OnlyLookups (⟨.findAgreement id, x⟩ :: history) := h.cons rfl
  cases x with
  | data found =>
      cases found with
      | none =>
          rw [dataOf, Calls.pure_eq, Calls.done_bind, hnone]
          exact Calls.conducts_done.mpr (.unreported _ hlookups (.notFound id List.mem_cons_self))
      | some agreement => exact hsome agreement _ hlookups
  | error message =>
      rw [dataOf, Calls.pure_eq, Calls.done_bind, hnone]
      exact Calls.conducts_done.mpr (.unreported _ hlookups (.notRead id message List.mem_cons_self))
  | thrown message => exact accountable_thrown hlookups

/-- A profile that is looked up, if there is one. -/
theorem accountable_findProfile {wallet : String}
    {f : Option NotifiedProfile → NotificationProgram Unit} (h : OnlyLookups history)
    (hf : ∀ profile history', OnlyLookups history' → Accountable env event (f profile) history') :
    Accountable env event (ask (NotificationCall.findProfile wallet) >>=
      fun x : Outcome (Option NotifiedProfile) => dataOf x >>= f) history := by
  apply Calls.conducts_ask h
  intro x
  have hlookups : OnlyLookups (⟨.findProfile wallet, x⟩ :: history) := h.cons rfl
  cases x with
  | data profile => exact hf profile _ hlookups
  | error message => exact hf none _ hlookups
  | thrown message => exact accountable_thrown hlookups

/-- Content that is made of the text of a description. -/
theorem unprintable_of_map_eq_none {description : Js.Value} {content : String → String × Html}
    (h : description.toText.map content = none) : description.toText.isNone = true :=
  Option.isNone_iff_eq_none.mpr (Option.map_eq_none_iff.mp h)

variable (env event) in
/-- Every handler keeps to the rule of its event. -/
theorem accountable_notificationOf (F : FloatArithmetic) :
    Accountable env event (notificationOf env F event) [] := by
  have hnothing : OnlyLookups [] := List.forall_mem_nil _
  -- the participants are looked up last; the events of a dispute look up its agreement before
  cases event with
  | created =>
      rw [notificationOf, notifyAgreementCreated]
      apply accountable_notifyParticipants hnothing
      · rfl
      · rintro ⟨⟩
  | funded =>
      rw [notificationOf, notifyAgreementFunded]
      apply accountable_notifyParticipants hnothing
      · rfl
      · rintro ⟨⟩
  | completed =>
      rw [notificationOf, notifyAgreementCompleted]
      apply accountable_notifyParticipants hnothing
      · rfl
      · rintro ⟨⟩
  | evidenceSubmitted =>
      rw [notificationOf, notifyEvidenceSubmitted]
      apply accountable_notifyParticipants hnothing
      · rfl
      · exact unprintable_of_map_eq_none
  | milestoneApproved =>
      rw [notificationOf, notifyMilestoneApproved]
      apply accountable_notifyParticipants hnothing
      · rfl
      · exact unprintable_of_map_eq_none
  | milestoneReleased =>
      rw [notificationOf, notifyMilestoneReleased]
      apply accountable_notifyParticipants hnothing
      · rfl
      · exact unprintable_of_map_eq_none
  | disputeOpened disputeId agreementId openedByWallet reason =>
      rw [notificationOf, disputeOpened]
      apply accountable_findAgreement hnothing rfl
      intro agreement history₁ h₁
      apply accountable_findProfile h₁
      intro profile history₂ h₂
      rw [notifyDisputeOpened]
      apply accountable_notifyParticipants h₂
      · rfl
      · rintro ⟨⟩
  | notifyDisputeOpened =>
      rw [notificationOf, notifyDisputeOpened]
      apply accountable_notifyParticipants hnothing
      · rfl
      · rintro ⟨⟩
  | disputeResolved =>
      rw [notificationOf, disputeResolved]
      apply accountable_findAgreement hnothing rfl
      intro agreement history₁ h₁
      simp only [notifyDisputeResolved]
      apply accountable_notifyParticipants h₁
      · rfl
      · rintro ⟨⟩

end Programs

end ThalosBackend.Notifications
