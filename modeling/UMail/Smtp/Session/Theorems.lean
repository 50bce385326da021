import UMail.Smtp.Session

namespace UMail.Smtp

open Buffered (Reader)
open UMail.Storage (Bytes bytes)

section Transactions

variable {World ρ : Type}

def Effect.code : Effect ρ → Option Nat
  | .reply code _ => some code
  | .capabilities _ => some 250
  | _ => none

def Effect.isHandover : Effect ρ → Bool
  | .pipeline _ | .deliver _ _ => true
  | _ => false

def Effect.isSecured : Effect ρ → Bool
  | .secured => true
  | _ => false

def accepted (effects : List (Effect ρ)) : Bool := effects.any fun e => e.code = some 250

-- A greeting, a reset, a handshake, or the end of a message: of one that DATA
-- asked for, and of one in chunks that was handed over or refused.
def endsTransaction (verb : Verb) (effects : List (Effect ρ)) : Bool :=
  match verb with
  | .ehlo | .helo | .rset => accepted effects
  | .starttls => effects.any Effect.isSecured
  | .data => effects.any fun e => e.code = some 354
  | .bdat => effects.any fun e => e.isHandover || [421, 552, 553, 554].any fun code => e.code = some code
  | _ => false

variable (server : Server World ρ)

def Handled.ends (h : Handled World ρ) : Bool :=
  endsTransaction (verbOf server.tools h.event.line) h.turn.effects

def Handled.mail (h : Handled World ρ) : Option MailCommand :=
  if verbOf server.tools h.event.line = .mail ∧ accepted h.turn.effects = true then
    (parseMail server.tools server.config (argOf server.tools h.event.line)).toOption
  else none

def Handled.rcpt (h : Handled World ρ) : Option RcptCommand :=
  if verbOf server.tools h.event.line = .rcpt ∧ accepted h.turn.effects = true then
    (parseRcpt server.tools server.config true (argOf server.tools h.event.line)).toOption
  else none

structure Transaction (first : Handled World ρ) (since : List (Handled World ρ)) (s : Session) : Prop where
  sender : ∃ mail, first.mail server = some mail ∧ s.mailFrom = mail.sender
  unbroken : ∀ h ∈ since, h.ends server = false ∧ h.mail server = none
  recipients : s.rcptTo = (since.filterMap (Handled.rcpt server)).map RcptCommand.recipient
  notify : s.rcptToNotify = (since.filterMap (Handled.rcpt server)).map RcptCommand.notify
  orcpt : s.rcptOrcpt = (since.filterMap (Handled.rcpt server)).map RcptCommand.orcpt
  openToAll : s.isAuth = false → server.config.requireAuth = false ∧ server.config.isSubmission = false
  isLocal : s.isAuth = false → ∀ handler, server.onLocalDomain = some handler →
    ∀ h ∈ since, ∀ rcpt, h.rcpt server = some rcpt →
      handler h.event.env.world (recipientDomain server.tools rcpt.recipient) = true
  isAllowed : s.isAuth = true → ∀ handler, server.onSenderAllowed = some handler →
    handler first.event.env.world s.username s.mailFrom = true

def InTransaction (past : List (Handled World ρ)) (s : Session) : Prop :=
  s.state = .mailFrom ∨ s.state = .rcptTo →
    ∃ before first since, past = before ++ first :: since ∧ Transaction server first since s ∧
      (s.state = .rcptTo → since.filterMap (Handled.rcpt server) ≠ [])

structure SameEnvelope (s s' : Session) : Prop where
  mailFrom : s'.mailFrom = s.mailFrom
  rcptTo : s'.rcptTo = s.rcptTo
  rcptToNotify : s'.rcptToNotify = s.rcptToNotify
  rcptOrcpt : s'.rcptOrcpt = s.rcptOrcpt
  isAuth : s'.isAuth = s.isAuth
  username : s'.username = s.username

theorem SameEnvelope.refl (s : Session) : SameEnvelope s s := ⟨rfl, rfl, rfl, rfl, rfl, rfl⟩

theorem SameEnvelope.after {s s' s'' : Session} (h' : SameEnvelope s' s'') (h : SameEnvelope s s') :
    SameEnvelope s s'' :=
  ⟨h'.mailFrom.trans h.mailFrom, h'.rcptTo.trans h.rcptTo, h'.rcptToNotify.trans h.rcptToNotify,
    h'.rcptOrcpt.trans h.rcptOrcpt, h'.isAuth.trans h.isAuth, h'.username.trans h.username⟩

variable {server} in

theorem Transaction.congr {first : Handled World ρ} {since : List (Handled World ρ)} {s s' : Session}
    (h : Transaction server first since s) (hsame : SameEnvelope s s') :
    Transaction server first since s' := by
  obtain ⟨mailFrom, rcptTo, rcptToNotify, rcptOrcpt, isAuth, username⟩ := hsame
  obtain ⟨sender, unbroken, recipients, notify, orcpt, openToAll, isLocal, isAllowed⟩ := h
  constructor
  · rw [mailFrom]; exact sender
  · exact unbroken
  · rw [rcptTo]; exact recipients
  · rw [rcptToNotify]; exact notify
  · rw [rcptOrcpt]; exact orcpt
  · rw [isAuth]; exact openToAll
  · rw [isAuth]; exact isLocal
  · rw [isAuth, username, mailFrom]; exact isAllowed

inductive Change (env : Env World) (s : Session) (verb : Verb) (arg : Bytes) (turn : Turn ρ) : Prop
  | kept (hstate : turn.session.state = s.state) (hsame : SameEnvelope s turn.session)
      (hends : endsTransaction verb turn.effects = false)
      (haccepted : verb = .mail ∨ verb = .rcpt → accepted turn.effects = false)
  | outside (hmail : turn.session.state ≠ .mailFrom) (hrcpt : turn.session.state ≠ .rcptTo)
  | opened (mail : MailCommand) (hverb : verb = .mail) (hstate : s.state = .greeted)
      (hparse : parseMail server.tools server.config arg = .ok mail)
      (hauth : s.isAuth = false → server.config.requireAuth = false ∧ server.config.isSubmission = false)
      (hallowed : senderAllowed server env.world s mail.sender = true)
      (hsession : turn.session = s.startTransaction mail) (haccepted : accepted turn.effects = true)
  | extended (rcpt : RcptCommand) (hverb : verb = .rcpt) (hstate : s.state = .mailFrom ∨ s.state = .rcptTo)
      (hparse : parseRcpt server.tools server.config s.smtputf8 arg = .ok rcpt)
      (hallowed : relayAllowed server env.world s rcpt.recipient = true)
      (hsession : turn.session = s.addRecipient rcpt) (haccepted : accepted turn.effects = true)

end Transactions

section Steps

variable {World ρ : Type} {server : Server World ρ} {env : Env World} {s : Session} {r : Reader UInt8}
  {verb : Verb} {arg : Bytes} {turn : Turn ρ} {size : Int}

theorem resetTransaction_state :
    s.resetTransaction.state ≠ .mailFrom ∧ s.resetTransaction.state ≠ .rcptTo := by
  change s.state.afterReset ≠ .mailFrom ∧ s.state.afterReset ≠ .rcptTo
  cases s.state <;> exact ⟨by decide, by decide⟩

theorem Change.ofReset (h : turn.session = s.resetTransaction) {s' : Session} :
    Change server env s' verb arg turn :=
  .outside (h ▸ resetTransaction_state.1) (h ▸ resetTransaction_state.2)

theorem accepted_answer (code : Nat) (message : Bytes) :
    accepted (answer s r code message : Turn ρ).effects = decide (code = 250) := by
  simp [accepted, answer, writeResponse, Effect.code]

theorem Change.ofAnswer {code : Nat} {message : Bytes}
    (hends : endsTransaction verb (answer s r code message : Turn ρ).effects = false)
    (hcode : verb = .mail ∨ verb = .rcpt → code ≠ 250) :
    Change server env s verb arg (answer s r code message) :=
  .kept rfl (.refl s) hends fun hverb => by rw [accepted_answer, decide_eq_false (hcode hverb)]

section Codes

variable {tools : Tools} {config : Config} {reply : Reply} {max : Nat} {val key recipient : Bytes}
  {smtputf8 : Bool} {w : World}

theorem checkSize_code (h : checkSize max val = some reply) : reply.code ≠ 250 := by
  unfold checkSize at h
  split at h
  · cases h; decide
  · split_ifs at h <;> · cases h; decide

theorem checkMailParam_code {mp : MailParams}
    (h : checkMailParam tools max mp key val = .error reply) : reply.code ≠ 250 := by
  unfold checkMailParam at h
  dsimp only at h
  split_ifs at h
  · cases hsize : checkSize max val with
    | none => rw [hsize] at h; cases h
    | some refusal =>
      rw [hsize] at h
      cases h
      exact checkSize_code hsize
  all_goals cases h; exact ne_of_beq_false rfl

theorem checkMailParams_code (h : checkMailParams tools max arg = .error reply) :
    reply.code ≠ 250 := by
  unfold checkMailParams at h
  generalize (⟨false, false⟩ : MailParams) = mp, mailParamFields arg = params at h
  induction params generalizing mp with
  | nil => cases h
  | cons field rest ih =>
    rw [List.foldlM_cons] at h
    cases hparam : checkMailParam tools max mp (paramKey field) (paramText field) with
    | error refusal =>
      rw [hparam] at h
      cases h
      exact checkMailParam_code hparam
    | ok mp' =>
      rw [hparam] at h
      exact ih mp' h

theorem validateSender_code {sender : Bytes} (h : validateSender tools sender = .error reply) :
    reply.code ≠ 250 := by
  unfold validateSender at h
  split_ifs at h
  split at h
  · cases h; decide
  · split_ifs at h
    cases h; decide

theorem parseMail_code (h : parseMail tools config arg = .error reply) : reply.code ≠ 250 := by
  unfold parseMail at h
  split at h
  · cases h; decide
  rename_i path ret hpath
  cases hsender : validateSender tools path with
  | error refusal =>
    rw [hsender] at h
    cases h
    exact validateSender_code hsender
  | ok sender =>
    rw [hsender] at h
    cases hparams : checkMailParams tools config.limits.maxMessageSize arg with
    | error refusal =>
      rw [hparams] at h
      cases h
      exact checkMailParams_code hparams
    | ok mp =>
      rw [hparams] at h
      change (if _ then _ else _) = _ at h
      split_ifs at h
      cases h; decide

theorem checkRcptParam_code (h : checkRcptParam tools key val = some reply) : reply.code ≠ 250 := by
  unfold checkRcptParam at h
  dsimp only at h
  split_ifs at h
  · obtain ⟨item, -, hitem⟩ := List.exists_of_findSome?_eq_some h
    unfold notifyItemReply at hitem
    split_ifs at hitem <;> · cases hitem; decide
  all_goals cases h; decide

theorem parseRcpt_code (h : parseRcpt tools config smtputf8 arg = .error reply) :
    reply.code ≠ 250 := by
  unfold parseRcpt at h
  split at h
  · cases h; decide
  split at h
  · cases h; decide
  cases hparams : checkRcptParams tools arg with
  | some refusal =>
    rw [hparams] at h
    dsimp only at h
    split_ifs at h
    · cases h; decide
    · cases h
      obtain ⟨field, -, hfield⟩ := List.exists_of_findSome?_eq_some hparams
      exact checkRcptParam_code hfield
  | none =>
    rw [hparams] at h
    split_ifs at h <;> · cases h; decide

-- The transaction's own UTF-8 only decides whether the command is taken.
theorem parseRcpt_utf8 {rcpt : RcptCommand} (h : parseRcpt tools config smtputf8 arg = .ok rcpt) :
    parseRcpt tools config true arg = .ok rcpt := by
  unfold parseRcpt at h ⊢
  rcases hpath : parseRcptToWithNotify tools arg with _ | path
  · rw [hpath] at h; cases h
  rw [hpath] at h
  dsimp only at h ⊢
  rcases hvalid : validateEmail tools (expandPostmaster tools config path.1) with _ | validated
  · rw [hvalid] at h; cases h
  rw [hvalid] at h
  dsimp only at h ⊢
  cases hparams : checkRcptParams tools arg with
  | some refusal =>
    rw [hparams] at h
    split_ifs at h
  | none =>
    rw [hparams] at h
    split_ifs at h with hlength hascii
    simpa [hlength] using h

theorem recipientReply_code (h : recipientReply server w s recipient = some reply) :
    reply.code ≠ 250 := by
  unfold recipientReply at h
  split_ifs at h <;> · cases h; decide

theorem recipientReply_none (h : recipientReply server w s recipient = none) :
    relayAllowed server w s recipient = true := by
  unfold recipientReply at h
  split_ifs at h with h1 h2
  simpa using h2

end Codes

theorem handleEHLO_change : Change server env s .ehlo arg (handleEHLO server s r arg) := by
  unfold handleEHLO
  split_ifs
  · exact .ofAnswer rfl (by simp)
  · exact .ofReset rfl

theorem handleHELO_change : Change server env s .helo arg (handleHELO server s r arg) := by
  unfold handleHELO
  split_ifs
  · exact .ofAnswer rfl (by simp)
  · exact .ofReset rfl

theorem handleMAIL_change : Change server env s .mail arg (handleMAIL server env s r arg) := by
  unfold handleMAIL
  split_ifs with hnew hgreeted hauth
  · exact .ofAnswer rfl (by simp)
  · exact .ofAnswer rfl (by simp)
  · exact .ofAnswer rfl (by simp)
  · cases hparse : parseMail server.tools server.config arg with
    | error reply => exact .ofAnswer rfl fun _ => parseMail_code hparse
    | ok mail =>
      dsimp only
      split_ifs with hallowed
      · exact .ofAnswer rfl (by simp)
      · refine .opened mail rfl (not_not.mp hgreeted) hparse (fun hno => ?_) (by simpa using hallowed) rfl rfl
        simpa [hno] using hauth

theorem handleRCPT_change : Change server env s .rcpt arg (handleRCPT server env s r arg) := by
  unfold handleRCPT
  split_ifs with hstate
  · exact .ofAnswer rfl (by simp)
  rcases hparse : parseRcpt server.tools server.config s.smtputf8 arg with reply | rcpt
  · exact .ofAnswer rfl fun _ => parseRcpt_code hparse
  dsimp only
  cases hreply : recipientReply server env.world s rcpt.recipient with
  | some reply => exact .ofAnswer rfl fun _ => recipientReply_code hreply
  | none => exact .extended rcpt rfl (by tauto) hparse (recipientReply_none hreply) rfl rfl

theorem deliverMessage_session (w : World) (replies : MessageReplies) (verdict : Option (Verdict ρ))
    (data : Bytes) :
    ∃ s' : Session, (deliverMessage server w replies s verdict data).1 = s'.resetTransaction := ⟨_, rfl⟩

theorem processMessage_session (server : Server World ρ) (w : World) (replies : MessageReplies)
    (s : Session) (data : Bytes) :
    ∃ s' : Session, (processMessage server w replies s data).1 = s'.resetTransaction := by
  unfold processMessage
  split_ifs
  · exact ⟨_, rfl⟩
  · exact ⟨_, rfl⟩
  · cases server.pipeline with
    | none => exact deliverMessage_session ..
    | some process =>
      dsimp only
      cases process w (messageContext s data) with
      | timedOut | failed | rejected => exact ⟨_, rfl⟩
      | quarantined | accepted => exact deliverMessage_session ..

theorem handleDATA_change : Change server env s .data arg (handleDATA server env s r) := by
  unfold handleDATA
  split_ifs with hsequence
  · exact .ofAnswer rfl (by simp)
  · exact .outside (by simp) (by simp)
  · match readData server.config.limits r with
    | .error .sessionBytes => exact .ofReset rfl
    | .error .connection =>
      unfold endDATA
      split_ifs <;> exact .ofReset rfl
    | .ok (.error e, r') => exact .ofReset rfl
    | .ok (.ok data, r') =>
      obtain ⟨s', hs'⟩ := processMessage_session server env.world dataReplies { s with state := .data } data
      exact .ofReset hs'

theorem discardBDATChunk_change (h : Change server env s .bdat arg turn) :
    Change server env s .bdat arg (discardBDATChunk server env size turn) := by
  unfold discardBDATChunk
  split_ifs
  · exact h
  · exact .ofReset rfl
  · cases h with
    | kept hstate hsame hends haccepted => exact .kept hstate hsame hends haccepted
    | outside hmail hrcpt => exact .outside hmail hrcpt
    | opened mail hverb => cases hverb
    | extended rcpt hverb => cases hverb

theorem finishBDAT_session (w : World) (raw : Bytes) :
    ∃ s' : Session, (finishBDAT server w s raw).1 = s'.resetTransaction := by
  unfold finishBDAT
  dsimp only
  split
  · exact ⟨_, rfl⟩
  · exact processMessage_session ..

theorem storeChunk_change {size : Nat} {isLast : Bool} :
    Change server env s .bdat arg (storeChunk server env s r size isLast) := by
  unfold storeChunk
  dsimp only
  split_ifs
  · exact .kept rfl ⟨rfl, rfl, rfl, rfl, rfl, rfl⟩ rfl (by simp)
  · exact .ofReset rfl
  · exact .ofReset (finishBDAT_session ..).choose_spec
  · exact .kept rfl ⟨rfl, rfl, rfl, rfl, rfl, rfl⟩ rfl (by simp)

theorem handleChunk_change {rest : List Bytes} :
    Change server env s .bdat arg (handleChunk server env s r size rest) := by
  have hreset : Change server env s .bdat arg (answer s.resetTransaction r 552 tooLargeText : Turn ρ) :=
    .ofReset rfl
  unfold handleChunk
  split_ifs
  · exact .ofAnswer rfl (by simp)
  · exact discardBDATChunk_change (.ofAnswer rfl (by simp))
  · exact hreset
  · exact discardBDATChunk_change hreset
  · exact storeChunk_change

theorem handleBDAT_change : Change server env s .bdat arg (handleBDAT server env s r arg) := by
  unfold handleBDAT
  split
  · split
    · exact discardBDATChunk_change (.ofAnswer rfl (by simp))
    · exact .ofAnswer rfl (by simp)
  split
  · exact .ofAnswer rfl (by simp)
  · split
    · exact .ofAnswer rfl (by simp)
    · exact handleChunk_change

theorem handleAUTH_change : Change server env s .auth arg (handleAUTH server env s r arg) := by
  unfold handleAUTH runExchange
  dsimp only
  split_ifs with htls hstate
  · exact .ofAnswer rfl (by simp)
  · exact .ofAnswer rfl (by simp)
  all_goals
    have hgreeted : s.state = .greeted := not_not.mp hstate
    refine .outside ?_ ?_ <;> (try split) <;> simp [answer, hgreeted]

theorem handleSTARTTLS_change : Change server env s .starttls arg (handleSTARTTLS server env s r) := by
  unfold handleSTARTTLS
  split_ifs
  · exact .ofAnswer rfl (by simp)
  · exact .ofAnswer rfl (by simp)
  · exact .kept rfl (.refl s) rfl (by simp)
  · cases env.handshake with
    | none => exact .kept rfl (.refl s) rfl (by simp)
    | some r' =>
      have hnew : s.secure.state = .new := rfl
      exact .outside (hnew ▸ by decide) (hnew ▸ by decide)

theorem handleVerb_change : Change server env s verb arg (handleVerb server env s r verb arg) := by
  cases verb with
  | ehlo => exact handleEHLO_change
  | helo => exact handleHELO_change
  | mail => exact handleMAIL_change
  | rcpt => exact handleRCPT_change
  | data => exact handleDATA_change
  | bdat => exact handleBDAT_change
  | rset => exact .ofReset rfl
  | vrfy =>
    unfold handleVerb handleVRFY
    split_ifs <;> exact .ofAnswer rfl (by simp)
  | quit => exact .kept rfl (.refl s) rfl (by simp)
  | auth => exact handleAUTH_change
  | starttls =>
    unfold handleVerb
    split_ifs
    · exact .ofAnswer rfl (by simp)
    · exact handleSTARTTLS_change
  | expn | help | noop | unrecognized => exact .ofAnswer rfl (by simp)

end Steps

section Deliveries

variable {World ρ : Type} {server : Server World ρ} {env : Env World} {s s' : Session} {r : Reader UInt8}
  {verb : Verb} {arg data : Bytes} {delivery : Option (Delivery ρ)} {replies : MessageReplies}
  {w : World} {size : Int}

theorem not_deliver_answer {code : Nat} {message : Bytes} :
    Effect.deliver s' delivery ∉ (answer s r code message : Turn ρ).effects := by
  simp [answer, writeResponse]

theorem deliverMessage_envelope {verdict : Option (Verdict ρ)}
    (h : Effect.deliver s' delivery ∈ (deliverMessage server w replies s verdict data).2) :
    SameEnvelope s s' := by
  unfold deliverMessage at h
  rcases List.mem_cons.mp h with hdeliver | hreply
  · cases hdeliver
    exact ⟨rfl, rfl, rfl, rfl, rfl, rfl⟩
  · rw [List.mem_singleton] at hreply
    split at hreply <;> cases hreply

theorem processMessage_envelope
    (h : Effect.deliver s' delivery ∈ (processMessage server w replies s data).2) :
    SameEnvelope s s' := by
  unfold processMessage at h
  split_ifs at h
  · simp [writeResponse] at h
  · simp [writeResponse] at h
  · cases hpipeline : server.pipeline with
    | none =>
      rw [hpipeline] at h
      exact (deliverMessage_envelope h).after ⟨rfl, rfl, rfl, rfl, rfl, rfl⟩
    | some process =>
      rw [hpipeline] at h
      rcases List.mem_cons.mp h with hpipe | h
      · cases hpipe
      cases hresult : process w (messageContext s data) with
      | timedOut | failed | rejected => simp [hresult, afterPipeline, writeResponse] at h
      | quarantined | accepted =>
        rw [hresult] at h
        exact (deliverMessage_envelope h).after ⟨rfl, rfl, rfl, rfl, rfl, rfl⟩

theorem handleDATA_deliver (h : Effect.deliver s' delivery ∈ (handleDATA server env s r).effects) :
    s.state = .rcptTo ∧ SameEnvelope s s' := by
  unfold handleDATA at h
  split_ifs at h with hsequence
  · exact absurd h not_deliver_answer
  · simp [startMailInput, writeResponse] at h
  · push Not at hsequence
    refine ⟨hsequence.1, ?_⟩
    match hread : readData server.config.limits r with
    | .error .sessionBytes => simp [hread, endDATA, startMailInput, writeResponse] at h
    | .error .connection =>
      rw [hread, endDATA] at h
      split_ifs at h <;> simp [startMailInput, writeResponse] at h
    | .ok (.error e, r') => simp [hread, endDATA, startMailInput, writeResponse] at h
    | .ok (.ok data, r') =>
      rw [hread] at h
      rcases List.mem_cons.mp h with hstart | h
      · cases hstart
      · exact (processMessage_envelope h).after ⟨rfl, rfl, rfl, rfl, rfl, rfl⟩

theorem not_deliver_discard {turn : Turn ρ} (h : Effect.deliver s' delivery ∉ turn.effects) :
    Effect.deliver s' delivery ∉ (discardBDATChunk server env size turn).effects := by
  unfold discardBDATChunk
  split_ifs
  · exact h
  · simp [h, writeResponse]
  · exact h

theorem storeChunk_deliver {size : Nat} {isLast : Bool}
    (h : Effect.deliver s' delivery ∈ (storeChunk server env s r size isLast).effects) :
    SameEnvelope s s' := by
  unfold storeChunk at h
  dsimp only at h
  split_ifs at h
  · cases h
  · simp [closing, writeResponse] at h
  · unfold finishBDAT at h
    dsimp only at h
    split at h
    · simp [writeResponse] at h
    · exact (processMessage_envelope h).after ⟨rfl, rfl, rfl, rfl, rfl, rfl⟩
  · exact absurd h not_deliver_answer

theorem handleChunk_deliver {rest : List Bytes}
    (h : Effect.deliver s' delivery ∈ (handleChunk server env s r size rest).effects) :
    SameEnvelope s s' := by
  unfold handleChunk at h
  split_ifs at h
  · exact absurd h not_deliver_answer
  · exact absurd h (not_deliver_discard not_deliver_answer)
  · exact absurd h not_deliver_answer
  · exact absurd h (not_deliver_discard not_deliver_answer)
  · exact storeChunk_deliver h

theorem handleBDAT_deliver (h : Effect.deliver s' delivery ∈ (handleBDAT server env s r arg).effects) :
    s.state = .rcptTo ∧ SameEnvelope s s' := by
  unfold handleBDAT at h
  split at h
  · split at h
    · exact absurd h (not_deliver_discard not_deliver_answer)
    · exact absurd h not_deliver_answer
  rename_i hstate
  refine ⟨not_not.mp hstate, ?_⟩
  split at h
  · exact absurd h not_deliver_answer
  · split at h
    · exact absurd h not_deliver_answer
    · exact handleChunk_deliver h

-- A message is handed over after accepted recipients only, with the envelope as
-- it is then.
theorem handleVerb_deliver (h : Effect.deliver s' delivery ∈ (handleVerb server env s r verb arg).effects) :
    s.state = .rcptTo ∧ SameEnvelope s s' := by
  cases verb with
  | data => exact handleDATA_deliver h
  | bdat => exact handleBDAT_deliver h
  | ehlo =>
    simp only [handleVerb, handleEHLO] at h
    split_ifs at h
    · exact absurd h not_deliver_answer
    · simp at h
  | helo =>
    simp only [handleVerb, handleHELO] at h
    split_ifs at h <;> exact absurd h not_deliver_answer
  | mail =>
    simp only [handleVerb, handleMAIL] at h
    split_ifs at h
    iterate 3 exact absurd h not_deliver_answer
    split at h
    · exact absurd h not_deliver_answer
    · split_ifs at h <;> exact absurd h not_deliver_answer
  | rcpt =>
    simp only [handleVerb, handleRCPT] at h
    split_ifs at h
    · exact absurd h not_deliver_answer
    · split at h
      · exact absurd h not_deliver_answer
      · split at h <;> exact absurd h not_deliver_answer
  | vrfy =>
    simp only [handleVerb, handleVRFY] at h
    split_ifs at h <;> exact absurd h not_deliver_answer
  | auth =>
    simp only [handleVerb, handleAUTH, runExchange] at h
    split_ifs at h <;> (try split at h) <;> simp [answer, writeResponse] at h
  | starttls =>
    simp only [handleVerb, handleSTARTTLS, readyToStart] at h
    split_ifs at h <;> (try split at h) <;> simp [answer, writeResponse] at h
  | quit => simp [handleVerb, handleQUIT, closing, writeResponse] at h
  | rset | expn | help | noop | unrecognized => exact absurd h not_deliver_answer

end Deliveries

section Runs

variable {World ρ : Type} {server : Server World ρ} {past : List (Handled World ρ)} {s : Session}
  {first : Handled World ρ} {since : List (Handled World ρ)} {h : Handled World ρ}

theorem Transaction.quiet (htrans : Transaction server first since s)
    (hends : h.ends server = false) (hmail : h.mail server = none) (hrcpt : h.rcpt server = none) :
    Transaction server first (since ++ [h]) s := by
  have hsame : (since ++ [h]).filterMap (Handled.rcpt server) = since.filterMap (Handled.rcpt server) := by
    rw [List.filterMap_append, List.filterMap_cons_none hrcpt, List.filterMap_nil, List.append_nil]
  obtain ⟨sender, unbroken, recipients, notify, orcpt, openToAll, isLocal, isAllowed⟩ := htrans
  refine ⟨sender, ?_, hsame ▸ recipients, hsame ▸ notify, hsame ▸ orcpt, openToAll, ?_, isAllowed⟩
  · rw [List.forall_mem_append, List.forall_mem_singleton]
    exact ⟨unbroken, hends, hmail⟩
  · intro hauth handler hhandler
    rw [List.forall_mem_append, List.forall_mem_singleton]
    refine ⟨isLocal hauth handler hhandler, fun rcpt hsome => ?_⟩
    rw [hrcpt] at hsome
    cases hsome

theorem Transaction.extend {rcpt : RcptCommand} (htrans : Transaction server first since s)
    (hends : h.ends server = false) (hmail : h.mail server = none)
    (hrcpt : h.rcpt server = some rcpt)
    (hlocal : relayAllowed server h.event.env.world s rcpt.recipient = true) :
    Transaction server first (since ++ [h]) (s.addRecipient rcpt) := by
  have hmore : (since ++ [h]).filterMap (Handled.rcpt server) =
      since.filterMap (Handled.rcpt server) ++ [rcpt] := by
    rw [List.filterMap_append, List.filterMap_cons_some hrcpt, List.filterMap_nil]
  obtain ⟨sender, unbroken, recipients, notify, orcpt, openToAll, isLocal, isAllowed⟩ := htrans
  refine ⟨sender, ?_, ?_, ?_, ?_, openToAll, ?_, isAllowed⟩
  · rw [List.forall_mem_append, List.forall_mem_singleton]
    exact ⟨unbroken, hends, hmail⟩
  · rw [hmore, List.map_append, ← recipients]; rfl
  · rw [hmore, List.map_append, ← notify]; rfl
  · rw [hmore, List.map_append, ← orcpt]; rfl
  · intro hauth handler hhandler
    rw [List.forall_mem_append, List.forall_mem_singleton]
    refine ⟨isLocal hauth handler hhandler, fun other hsome => ?_⟩
    rw [hrcpt] at hsome
    cases hsome
    have hnot : s.isAuth = false := hauth
    rw [relayAllowed, hhandler] at hlocal
    simp only [hnot, Bool.false_or, Bool.and_eq_true] at hlocal
    exact hlocal.2

theorem InTransaction.step (h : InTransaction server past s) (event : Event World) :
    InTransaction server (past ++ [⟨event, handleEvent server s event⟩])
      (handleEvent server s event).session := by
  have hchange : Change server event.env s (verbOf server.tools event.line) (argOf server.tools event.line)
      (handleEvent server s event) := handleVerb_change
  intro hin
  cases hchange with
  | kept hstate hsame hends haccepted =>
    rw [hstate] at hin
    obtain ⟨before, first, since, rfl, htrans, hne⟩ := h hin
    refine ⟨before, first, since ++ [⟨event, handleEvent server s event⟩], by simp, ?_, ?_⟩
    · have hquiet : Handled.ends server ⟨event, handleEvent server s event⟩ = false := hends
      refine (htrans.quiet hquiet ?_ ?_).congr hsame
      · exact if_neg fun hmail => by simp [haccepted (.inl hmail.1)] at hmail
      · exact if_neg fun hrcpt => by simp [haccepted (.inr hrcpt.1)] at hrcpt
    · rw [hstate, List.filterMap_append]
      exact fun hrcpt => List.append_ne_nil_of_left_ne_nil (hne hrcpt) _
  | outside hmail hrcpt => exact absurd hin (not_or.mpr ⟨hmail, hrcpt⟩)
  | opened mail hverb hstate hparse hauth hallowed hsession haccepted =>
    refine ⟨past, _, [], rfl, ?_, fun hrcpt => ?_⟩
    · rw [hsession]
      refine ⟨⟨mail, ?_, rfl⟩, by simp, rfl, rfl, rfl, hauth, by simp, ?_⟩
      · rw [Handled.mail, if_pos ⟨hverb, haccepted⟩, hparse]
        rfl
      · intro hyes handler hhandler
        rw [senderAllowed, hhandler] at hallowed
        have hyes : s.isAuth = true := hyes
        rw [hyes] at hallowed
        exact hallowed
    · rw [hsession] at hrcpt
      cases hrcpt
  | extended rcpt hverb hstate hparse hallowed hsession haccepted =>
    obtain ⟨before, first, since, rfl, htrans, -⟩ := h hstate
    have hrcpt : Handled.rcpt server ⟨event, handleEvent server s event⟩ = some rcpt := by
      rw [Handled.rcpt, if_pos ⟨hverb, haccepted⟩, parseRcpt_utf8 hparse]
      rfl
    refine ⟨before, first, since ++ [⟨event, handleEvent server s event⟩], by simp, ?_, fun _ => ?_⟩
    · rw [hsession]
      refine htrans.extend ?_ ?_ hrcpt hallowed
      · rw [Handled.ends, hverb]
        rfl
      · exact if_neg fun hmail => by rw [hverb] at hmail; cases hmail.1
    · rw [List.filterMap_append, List.filterMap_cons_some hrcpt]
      simp

theorem InTransaction.run {served : Served World ρ} (h : InTransaction server served.past served.session)
    (events : List (Event World)) :
    InTransaction server (events.foldl (Served.next server) served).past
      (events.foldl (Served.next server) served).session := by
  induction events generalizing served with
  | nil => exact h
  | cons event events ih =>
    refine ih ?_
    unfold Served.next
    split_ifs
    · exact h
    · exact h.step event

-- Whenever a message is handed over, there is a transaction that was opened and
-- not ended since, and the envelope is exactly what was accepted in it.
theorem deliver_inTransaction (server : Server World ρ) (clientIP : Bytes) (isTLS : Bool)
    (events : List (Event World)) (event : Event World) {s : Session} {delivery : Option (Delivery ρ)}
    (hdeliver : Effect.deliver s delivery ∈
      (handleEvent server (serve server (newSession clientIP isTLS) events).session event).effects) :
    ∃ before first since,
      (serve server (newSession clientIP isTLS) events).past = before ++ first :: since ∧
      Transaction server first since s ∧ s.rcptTo ≠ [] ∧ s.rcptToNotify.length = s.rcptTo.length ∧
      s.rcptOrcpt.length = s.rcptTo.length := by
  have hstart : InTransaction server ([] : List (Handled World ρ)) (newSession clientIP isTLS) := by
    rintro (hmail | hrcpt)
    · cases hmail
    · cases hrcpt
  obtain ⟨hstate, hsame⟩ := handleVerb_deliver hdeliver
  obtain ⟨before, first, since, hpast, htrans, hne⟩ :=
    @InTransaction.run World ρ server ⟨[], newSession clientIP isTLS, false⟩ hstart events (.inr hstate)
  have htrans' := htrans.congr hsame
  refine ⟨before, first, since, hpast, htrans', ?_, ?_, ?_⟩
  · rw [htrans'.recipients, Ne, List.map_eq_nil_iff]
    exact hne hstate
  · rw [htrans'.recipients, htrans'.notify, List.length_map, List.length_map]
  · rw [htrans'.recipients, htrans'.orcpt, List.length_map, List.length_map]

def plainTools : Tools where
  parseAddressList value := some [value]
  toLower := Storage.toLower
  toUpper := Storage.toUpper
  equalFold := Storage.equalFold
  parseAddress := some

def plainServer : Server Unit Unit where
  tools := plainTools
  config := ⟨bytes "mx", ⟨100, 1000⟩, 10, false, false, false, false, false⟩
  onSenderAllowed := none
  onLocalDomain := some fun _ domain => domain = bytes "d"
  onRecipientExists := none
  onValidate := none
  allowUserRecipient _ _ := true
  isAuthLockedOut _ _ := false
  pipeline := none
  stripVerdictHeaders := id
  addTraceHeaders _ _ _ := id
  isSet handler := handler = .plain
  onDeliver _ _ := none

def plainEvent (line content : Bytes) : Event Unit where
  line := line
  env := ⟨(), true, false, none, (.aborted, ⟨16, [], [], 0⟩), fun _ => 512, 100⟩
  reader := ⟨16, [], [content], 0⟩

def plainSession : Session :=
  { newSession [] false with
    state := .data
    helloDomain := bytes "c"
    mailFrom := bytes "a@b"
    rcptTo := [bytes "c@d"]
    rcptToNotify := [[]]
    rcptOrcpt := [[]]
    rcptRaw := [bytes "c@d"]
    data := bytes "x\r\n" }

theorem deliver_inTransaction_plain :
    ∃ before first since,
      (serve plainServer (newSession [] false)
        [plainEvent (bytes "EHLO c") [], plainEvent (bytes "MAIL FROM:<a@b>") [],
          plainEvent (bytes "RCPT TO:<c@d>") []]).past = before ++ first :: since ∧
      Transaction plainServer first since plainSession ∧ plainSession.rcptTo ≠ [] ∧
      plainSession.rcptToNotify.length = plainSession.rcptTo.length ∧
      plainSession.rcptOrcpt.length = plainSession.rcptTo.length := by
  have hdeliver : Effect.deliver plainSession
      (some (.plain (bytes "a@b") [bytes "c@d"] (bytes "x\r\n"))) ∈
        (handleEvent plainServer (serve plainServer (newSession [] false)
          [plainEvent (bytes "EHLO c") [], plainEvent (bytes "MAIL FROM:<a@b>") [],
            plainEvent (bytes "RCPT TO:<c@d>") []]).session
          (plainEvent (bytes "DATA") (bytes "x\r\n.\r\n"))).effects := by
    decide
  exact deliver_inTransaction plainServer [] false _ _ hdeliver

end Runs

end UMail.Smtp
