import ThalosBackend.Notifications.NotificationRuns

/-!
# No mail goes astray, and the log does not lie

Both hold of every store that handlers lead to, whatever their order and whatever fails. A mail that
Resend has accepted goes to participants of the agreement of its event, and a handler asks for no
second one. A row that calls a mail sent tells of a mail that was accepted.
-/

set_option autoImplicit false

namespace ThalosBackend.Notifications

open Js (FloatArithmetic)
open Calls (Accounted Recalling historyOf)
open Agreements (AgreementEvent)

/-- The mails that a handler has asked for. -/
def mailsOf (history : NotificationHistory) : List Mail :=
  history.filterMap fun e => match e.1 with
    | .send mail => some mail
    | _ => none

theorem mailsOf_eq_nil {history : NotificationHistory} (h : OnlyLookups history) :
    mailsOf history = [] := by
  apply List.filterMap_eq_nil_iff.mpr
  rintro ⟨c, x⟩ he
  have hlookup := h _ he
  cases c with
  | send mail => cases hlookup
  | _ => rfl

/-- A mail is only asked for when nothing but lookups came before. -/
theorem length_mailsOf_cons {env : NotificationEnv} {event : AgreementEvent} {c : NotificationCall}
    {x : c.reply} {history : NotificationHistory} (hc : Permitted env event c history)
    (h : (mailsOf history).length ≤ 1) : (mailsOf (⟨c, x⟩ :: history)).length ≤ 1 := by
  cases c with
  | send mail =>
      have hnone : mailsOf history = [] := mailsOf_eq_nil hc.1
      have heq : mailsOf (⟨.send mail, x⟩ :: history) = mail :: mailsOf history := rfl
      rw [heq, hnone]
      rfl
  | _ => exact h

/-! ## What every run keeps -/

section Runs

variable {env : NotificationEnv} {F : FloatArithmetic} {c c' : NotificationConfig}
  {l : Threads.Label ℕ NotificationTask Unit Empty}

/-- The mail that was accepted for an event is one its handler asked for. -/
structure Backed (env : NotificationEnv) (c : NotificationConfig) (event : AgreementEvent)
    (mail : Mail) : Prop where
  configured : env.resend = true ∧ mail.sender = env.fromEmail ∧ mail.replyTo = env.replyTo
  someone : mail.recipients ≠ []
  addressed : ∀ email ∈ mail.recipients, IsAddressFor c.shared event email
  asked : ∃ t k, c.threads t = some k ∧ k.request = event ∧ mail ∈ mailsOf (historyOf k.rest)

/-- What every run keeps. -/
structure MailInv (env : NotificationEnv) (c : NotificationConfig) : Prop where
  recalling : Recalling Tells c
  accounted : Accounted (Permitted env) (Account env) c
  once : ∀ t k, c.threads t = some k → (mailsOf (historyOf k.rest)).length ≤ 1
  accepted : ∀ event mail, (event, mail) ∈ c.shared.accepted → Backed env c event mail
  logged : ∀ row ∈ c.shared.logs, row.status = .sent → ∃ event mail,
    (event, mail) ∈ c.shared.accepted ∧ row ∈ (attemptEntry event mail (.data ())).rows

/-- A step that only adds to the histories of handlers, and to the store. -/
theorem Backed.grows {event : AgreementEvent} {mail : Mail} (h : Backed env c event mail)
    (hgrows : Grows c.shared c'.shared)
    (hthreads : ∀ t k, c.threads t = some k → ∃ k', c'.threads t = some k' ∧
      k'.request = k.request ∧ historyOf k.rest <:+ historyOf k'.rest) :
    Backed env c' event mail := by
  refine ⟨h.configured, h.someone, fun email hemail => (h.addressed email hemail).grows hgrows, ?_⟩
  obtain ⟨t, k, hk, hevent, hmail⟩ := h.asked
  obtain ⟨k', hk', hrequest, hsuffix⟩ := hthreads t k hk
  exact ⟨t, k', hk', hrequest.trans hevent, (hsuffix.sublist.filterMap _).subset hmail⟩

/-- What Resend has accepted since is the mail of the query. -/
theorem Executes.accepted {event : AgreementEvent} {call : NotificationCall}
    {s s' : NotificationStore} {x : call.reply} (h : Executes event call s x s')
    {a : AgreementEvent × Mail} (ha : a ∈ s'.accepted) :
    a ∈ s.accepted ∨ ∃ mail, call = .send mail ∧ a = (event, mail) := by
  cases call with
  | participantWallets agreementId excluded => exact .inl (h.1 ▸ ha)
  | findProfile wallet => exact .inl (h.1 ▸ ha)
  | findAgreement id => exact .inl (h.1 ▸ ha)
  | insertLogs rows =>
      cases x with
      | data _ =>
          obtain rfl := h
          exact .inl ha
      | error _ => exact .inl (h ▸ ha)
      | thrown _ =>
          -- a request to Resend that throws may have been carried out
          rcases h with rfl | rfl
          · exact .inl ha
          · exact .inl ha
  | send mail =>
      cases x with
      | data _ =>
          obtain rfl := h
          exact (List.mem_cons.mp ha).symm.imp_right fun hnew => ⟨mail, rfl, hnew⟩
      | error _ => exact .inl (h ▸ ha)
      | thrown _ =>
          rcases h with rfl | rfl
          · exact .inl ha
          · exact (List.mem_cons.mp ha).symm.imp_right fun hnew => ⟨mail, rfl, hnew⟩

/-- The rows stored since are those of the query. -/
theorem Executes.logs {event : AgreementEvent} {call : NotificationCall}
    {s s' : NotificationStore} {x : call.reply} (h : Executes event call s x s')
    {row : NotificationLog} (hrow : row ∈ s'.logs) :
    row ∈ s.logs ∨ ∃ rows, call = .insertLogs rows ∧ row ∈ rows := by
  cases call with
  | participantWallets agreementId excluded => exact .inl (h.1 ▸ hrow)
  | findProfile wallet => exact .inl (h.1 ▸ hrow)
  | findAgreement id => exact .inl (h.1 ▸ hrow)
  | insertLogs rows =>
      cases x with
      | data _ =>
          obtain rfl := h
          exact (List.mem_append.mp hrow).imp_right fun hnew => ⟨rows, rfl, hnew⟩
      | error _ => exact .inl (h ▸ hrow)
      | thrown _ =>
          rcases h with rfl | rfl
          · exact .inl hrow
          · exact (List.mem_append.mp hrow).imp_right fun hnew => ⟨rows, rfl, hnew⟩
  | send mail =>
      cases x with
      | data _ =>
          obtain rfl := h
          exact .inl hrow
      | error _ => exact .inl (h ▸ hrow)
      | thrown _ =>
          rcases h with rfl | rfl
          · exact .inl hrow
          · exact .inl hrow

/-- **Step lemma.** Every step keeps what is known of mails and of the log. -/
theorem MailInv.step (h : MailInv env c) (hstep : (handlingSystem env F).step c l c') :
    MailInv env c' := by
  have hrecalling : Recalling Tells c' := by
    refine h.recalling.step (fun event => ⟨onEvent env F event, rfl⟩) ?_ ?_ hstep
    · intro a event call x s hexec
      exact hexec.tells
    · intro t k hk hheld
      cases Calls.step_cases hstep with
      | start => exact hheld
      | act t a event call cont x s hk' hexec =>
          intro e he
          exact hexec.grows.tells (hheld e he)
      | env b => exact nomatch b
  have haccounted : Accounted (Permitted env) (Account env) c' :=
    h.accounted.step_caught (fun event =>
      ⟨notificationOf env F event, rfl, accountable_notificationOf env event F⟩) hstep
  -- a handler that was there is there still, and has made all its queries
  have hkept : ∀ t k, c.threads t = some k → ∃ k', c'.threads t = some k' ∧
      k'.request = k.request ∧ historyOf k.rest <:+ historyOf k'.rest :=
    fun t k hk => h.recalling.grows hstep hk
  cases Calls.step_cases hstep with
  | start t event hfree =>
      refine ⟨hrecalling, haccounted, ?_, ?_, h.logged⟩
      · intro t' k hk
        rcases Threads.update_eq_some hk with ⟨-, hself⟩ | ⟨-, hother⟩
        · cases hself
          simp only [handling, Calls.historyOf_traced]
          exact Nat.zero_le 1
        · exact h.once t' k hother
      · intro event' mail hmail
        exact (h.accepted event' mail hmail).grows (.refl _) hkept
  | act t a event call cont x s hk hexec =>
      obtain ⟨call, history⟩ := call
      obtain ⟨hpermitted, hnext⟩ := h.accounted.next hk
      have hgrows : Grows c.shared s := Executes.grows hexec
      have hhistory : historyOf (cont x) = ⟨call, x⟩ :: history := by
        obtain ⟨p, hp, -⟩ := hnext x
        rw [hp, Calls.historyOf_traced]
      have hheld : Calls.Held (Tells event) history c.shared := h.recalling.held t _ hk
      refine ⟨hrecalling, haccounted, ?_, ?_, ?_⟩
      · intro t' k hk'
        rcases Threads.update_eq_some hk' with ⟨-, hself⟩ | ⟨-, hother⟩
        · cases hself
          rw [hhistory]
          -- a mail is permitted only where none was asked for before
          exact length_mailsOf_cons hpermitted (h.once t _ hk)
        · exact h.once t' k hother
      · intro event' mail hmail
        rcases Executes.accepted hexec hmail with hold | ⟨mail', rfl, heq⟩
        · exact (h.accepted event' mail hold).grows hgrows hkept
        · -- the handler has found out who is to be told, and this still holds
          cases heq
          obtain ⟨-, hresend, hsender, hreply, hsomeone, haddressed⟩ := hpermitted
          refine ⟨⟨hresend, hsender, hreply⟩, hsomeone, fun email hemail => ?_, ?_⟩
          · exact (haddressed email hemail c.shared hheld).grows hgrows
          · refine ⟨t, _, Function.update_self _ _ _, rfl, ?_⟩
            rw [hhistory]
            exact List.mem_cons_self
      · intro row hrow hsent
        rcases Executes.logs hexec hrow with hold | ⟨rows, rfl, hnew⟩
        · obtain ⟨event', mail, hmail, hrow'⟩ := h.logged row hold hsent
          exact ⟨event', mail, hgrows.accepted _ hmail, hrow'⟩
        · rcases hpermitted with ⟨-, hskipped⟩ | ⟨mail, y, before, rfl, -, rfl⟩
          · rw [hskipped row hnew] at hsent
            cases hsent
          · -- only a mail that was accepted is recorded as sent
            rw [status_of_mem_rows hnew] at hsent
            obtain rfl := attemptEntry_sent hsent
            have haccepted : (event, mail) ∈ c.shared.accepted := (Calls.held_cons.mp hheld).1
            exact ⟨event, mail, hgrows.accepted _ haccepted, hnew⟩
  | env b => exact nomatch b

/-- **Run lemma.** What is known of mails and of the log holds of every configuration. -/
theorem mailInv_of_reachable (h : (handlingSystem env F).Reachable c) : MailInv env c := by
  refine StepSystem.invariant_of_steps (M := handlingSystem env F) (I := MailInv env) ?_ ?_ h
  · rintro c ⟨⟨hlogs, haccepted⟩, hnone⟩
    refine ⟨Calls.recalling_of_none hnone, Calls.ruled_of_none hnone, ?_, ?_, ?_⟩
    · intro t k hk
      rw [hnone t] at hk
      cases hk
    · intro event mail hmail
      rw [haccepted] at hmail
      cases hmail
    · intro row hrow
      rw [hlogs] at hrow
      cases hrow
  · intro c l c' _ hI hstep
    exact hI.step hstep

/-- Every mail that Resend has accepted was asked for by a handler of its event, goes to at least one
address, and only to addresses that the profiles of those hold who are to be told; and no handler asks
for more than one mail. -/
theorem mails_reach_whom_they_concern (h : (handlingSystem env F).Reachable c) :
    (∀ event mail, (event, mail) ∈ c.shared.accepted → Backed env c event mail) ∧
      ∀ t k, c.threads t = some k → (mailsOf (historyOf k.rest)).length ≤ 1 :=
  ⟨(mailInv_of_reachable h).accepted, (mailInv_of_reachable h).once⟩

/-- A row says `sent` only of a mail that was accepted. A handler that has ended has done what
`Account` says, and the rows it was told are stored are there. -/
theorem log_is_truthful (h : (handlingSystem env F).Reachable c) :
    (∀ row ∈ c.shared.logs, row.status = .sent → ∃ event mail,
      (event, mail) ∈ c.shared.accepted ∧ row ∈ (attemptEntry event mail (.data ())).rows) ∧
    ∀ t event history, c.threads t = some ⟨event, .done ((), history)⟩ →
      Account env event history ∧
        ∀ rows, ⟨.insertLogs rows, .data ()⟩ ∈ history → ∀ row ∈ rows, row ∈ c.shared.logs := by
  have hinv := mailInv_of_reachable h
  refine ⟨hinv.logged, fun t event history hk => ⟨hinv.accounted.ended hk, ?_⟩⟩
  intro rows hrows row hrow
  exact hinv.recalling.held t _ hk _ hrows row hrow

end Runs

/-! ## A store that answers -/

section Example

open Calls (Move)
open Agreements (exactArithmetic)

/-- A query that goes through. -/
def NotificationStore.answer (s : NotificationStore) (event : AgreementEvent) :
    (c : NotificationCall) → c.reply × NotificationStore
  | .participantWallets agreementId excluded =>
    (.data ((s.participants.filter fun p =>
      p.agreementId = agreementId ∧ excluded ≠ some p.walletAddress).map
        Agreements.Participant.walletAddress), s)
  | .findProfile wallet =>
    match Wallets.maybeSingle (s.profiles.filter fun p => p.walletAddress = wallet) with
    | .ok found => (.data found, s)
    | .error e => (.error e.message, s)
  | .findAgreement id =>
    match Wallets.maybeSingle (s.agreements.filter fun a => a.id = id) with
    | .ok found => (.data found, s)
    | .error e => (.error e.message, s)
  | .insertLogs rows => (.data (), { s with logs := s.logs ++ rows })
  | .send mail => (.data (), { s with accepted := (event, mail) :: s.accepted })

theorem NotificationStore.executes_answer (s : NotificationStore) (event : AgreementEvent)
    (c : NotificationCall) : Executes event c s (s.answer event c).1 (s.answer event c).2 := by
  cases c with
  | participantWallets agreementId excluded =>
      refine ⟨rfl, ?_⟩
      rintro wallets ⟨⟩
      exact .refl _
  | findProfile wallet =>
      simp only [NotificationStore.answer]
      split
      · rename_i found hfound
        refine ⟨rfl, ?_⟩
        rintro found ⟨⟩
        exact hfound
      · refine ⟨rfl, ?_⟩
        rintro found ⟨⟩
  | findAgreement id =>
      simp only [NotificationStore.answer]
      split
      · rename_i found hfound
        refine ⟨rfl, ?_⟩
        rintro found ⟨⟩
        exact hfound
      · refine ⟨rfl, ?_⟩
        rintro found ⟨⟩
  | insertLogs rows => rfl
  | send mail => rfl

def mailEnv : NotificationEnv := ⟨none, none, some "key"⟩

/-- `P` has submitted evidence, and `Q` is to be told. -/
def evidenceEvent : AgreementEvent :=
  .evidenceSubmitted "a" "Sale" 0 (.string "Design") "10" "USDC" "P" none none

def mailStore : NotificationStore where
  participants := [⟨"a", "P", "payer"⟩, ⟨"a", "Q", "payee"⟩, ⟨"b", "R", "payee"⟩]
  profiles := [⟨"P", some "p@mail", none⟩, ⟨"Q", some "q@mail", none⟩, ⟨"R", some "r@mail", none⟩]
  agreements := []
  logs := []
  accepted := []

/-- What a schedule leads to. -/
def playMails (moves : List (Move AgreementEvent)) :
    Option (NotificationStore × List NotificationTask) :=
  (handling mailEnv exactArithmetic).play (fun event c s => s.answer event c.1) (fun _ _ _ => true)
    moves (mailStore, [])

theorem reachable_playMails {moves : List (Move AgreementEvent)}
    {state : NotificationStore × List NotificationTask} (h : playMails moves = some state) :
    (handlingSystem mailEnv exactArithmetic).Reachable (Calls.begun state.1 state.2) := by
  have hreach : ((handlingSystem mailEnv exactArithmetic).restrict fun _ _ => True).Reachable
      (Calls.begun state.1 state.2) := by
    refine Calls.reachable_play (a := ()) (fun event c s => s.executes_answer event c.1)
      (fun _ _ _ _ => trivial) (.init ?_) h
    exact ⟨⟨rfl, rfl⟩, fun _ => rfl⟩
  exact hreach.of_restrict

theorem mails_reach_whom_they_concern_payee : ∃ c : NotificationConfig,
    (handlingSystem mailEnv exactArithmetic).Reachable c ∧
      c.shared.accepted.map (fun a => a.2.recipients) = [["q@mail"]] ∧
      (∀ event mail, (event, mail) ∈ c.shared.accepted → Backed mailEnv c event mail) ∧
      ∀ t k, c.threads t = some k → (mailsOf (historyOf k.rest)).length ≤ 1 := by
  have hrun : (playMails (.start evidenceEvent :: List.replicate 3 (.next 0))).map
      (fun state => state.1.accepted.map fun a => a.2.recipients) = some [["q@mail"]] := by
    decide +kernel
  obtain ⟨state, hstate, hmails⟩ := Option.map_eq_some_iff.mp hrun
  have hreach := reachable_playMails hstate
  exact ⟨_, hreach, hmails, mails_reach_whom_they_concern hreach⟩

theorem log_is_truthful_payee : ∃ c : NotificationConfig,
    (handlingSystem mailEnv exactArithmetic).Reachable c ∧
      c.shared.logs.map (fun row => (row.status, row.recipientEmail)) = [(.sent, some "q@mail")] ∧
      (∀ row ∈ c.shared.logs, row.status = .sent → ∃ event mail,
        (event, mail) ∈ c.shared.accepted ∧ row ∈ (attemptEntry event mail (.data ())).rows) ∧
      ∀ t event history, c.threads t = some ⟨event, .done ((), history)⟩ →
        Account mailEnv event history ∧
          ∀ rows, ⟨.insertLogs rows, .data ()⟩ ∈ history → ∀ row ∈ rows, row ∈ c.shared.logs := by
  have hrun : (playMails (.start evidenceEvent :: List.replicate 4 (.next 0))).map
      (fun state => state.1.logs.map fun row => (row.status, row.recipientEmail)) =
        some [(.sent, some "q@mail")] := by
    decide +kernel
  obtain ⟨state, hstate, hlogs⟩ := Option.map_eq_some_iff.mp hrun
  have hreach := reachable_playMails hstate
  exact ⟨_, hreach, hlogs, log_is_truthful hreach⟩

end Example

end ThalosBackend.Notifications
