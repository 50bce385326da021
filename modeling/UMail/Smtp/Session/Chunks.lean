import UMail.Smtp.Data.Theorems
import UMail.Smtp.Session.Theorems

namespace UMail.Smtp

open Buffered (Copied Flowing Later Reader copyN copyN_spec)
open Text (fields isDigit)
open UMail.Imap (parseDigits)
open UMail.Storage (Bytes bytes)

def Decimal (size : Bytes) (n : Nat) : Prop := size ≠ [] ∧ parseDigits 0 size = some n

theorem parseInt64_decimal {size : Bytes} {n : Nat} (h : Decimal size n) :
    parseInt64 size = if n < 2 ^ 63 then some (n : Int) else none := by
  obtain ⟨hne, hdigits⟩ := h
  have hmagnitude : parseMagnitude (2 ^ 63) size = if n < 2 ^ 63 then some n else none := by
    rw [parseMagnitude, if_neg hne, hdigits, Option.filter_some]
    simp
  have hparse : parseInt64 size = (parseMagnitude (2 ^ 63) size).map fun n => (n : Int) := by
    unfold parseInt64
    split
    · rw [parseDigits] at hdigits
      cases hdigits
    · rw [parseDigits] at hdigits
      cases hdigits
    · rfl
  rw [hparse, hmagnitude]
  split_ifs <;> rfl

section Discarding

variable {World ρ : Type} {server : Server World ρ} {env : Env World} {s : Session} {r : Reader UInt8}
  {arg size : Bytes} {rest : List Bytes} {n : Nat}

variable (server s rest n) in

-- A chunk that is not read into the message.
def isRefused : Bool :=
  s.state ≠ .rcptTo || (rest ≠ [] && rest.map server.tools.toUpper ≠ [bytes "LAST"]) ||
    (n : Int) > (server.config.limits.maxMessageSize : Int) - (s.bdatBuffer.getD []).length

variable (server env s r rest n) in

-- The octets of the chunk, or all that follow, are read before the deadline.
def InTime : Prop :=
  min n r.stream.length ≤
    (copyN (if isRefused server s rest n then fun _ => 8192 else env.room) env.reads n r).done.length

variable (server env s rest n) in

-- It is refused as too large, and that cannot be told.
def Unreported : Prop :=
  env.written = false ∧ s.state = .rcptTo ∧ (rest ≠ [] → rest.map server.tools.toUpper = [bytes "LAST"]) ∧
    (n : Int) > (server.config.limits.maxMessageSize : Int) - (s.bdatBuffer.getD []).length

theorem discardBDATChunk_stream_iff {turn : Turn ρ}
    (hopen : (discardBDATChunk server env n turn).quit = false) :
    (discardBDATChunk server env n turn).reader.stream = turn.reader.stream.drop n ↔
      min n turn.reader.stream.length ≤
        (copyN (fun _ => 8192) env.reads n turn.reader).done.length := by
  unfold discardBDATChunk at hopen ⊢
  split_ifs at hopen ⊢ with hzero hbudget
  · have hn : n = 0 := by omega
    rw [hn]
    simp
  · exact Buffered.copyN_stream_iff _ _ _ _

theorem readChunk_stream_iff :
    (readChunk env n r).reader.stream = r.stream.drop n ↔
      min n r.stream.length ≤ (copyN env.room env.reads n r).done.length := by
  unfold readChunk
  split_ifs with hzero
  · rw [hzero]
    simp
  · exact Buffered.copyN_stream_iff _ _ _ _

theorem storeChunk_reader {isLast : Bool} :
    (storeChunk server env s r n isLast).reader = (readChunk env n r).reader := by
  unfold storeChunk
  dsimp only
  split_ifs <;> rfl

theorem handleBDAT_eq (hargs : fields arg = size :: rest) (hsize : Decimal size n) (hn : n < 2 ^ 63) :
    handleBDAT server env s r arg =
      if s.state ≠ .rcptTo then discardBDATChunk server env n (answer s r 503 badSequenceText)
      else handleChunk server env s r n rest := by
  have hparse : parseInt64 size = some (n : Int) := by rw [parseInt64_decimal hsize, if_pos hn]
  rw [handleBDAT, hargs, List.head?_cons, Option.bind_some]
  dsimp only
  rw [hparse]

theorem drop_eq_self_iff : r.stream = r.stream.drop n ↔ r.stream = [] ∨ n = 0 := by
  constructor
  · intro h
    have hlength := congrArg List.length h
    rw [List.length_drop] at hlength
    rcases Nat.eq_zero_or_pos n with hzero | hpos
    · exact .inr hzero
    · exact .inl (List.length_eq_zero_iff.mp (by omega))
  · rintro (hnil | rfl)
    · rw [hnil, List.drop_nil]
    · rfl

theorem inTime_of_none (h : r.stream = [] ∨ n = 0) : InTime server env s r rest n := by
  rcases h with h | h
  · simp [InTime, h]
  · simp [InTime, h]

-- Whatever is answered, the octets of a size that can be read, and no others, are
-- taken from the connection, unless they do not come or cannot be refused.
theorem handleBDAT_stream_iff (hargs : fields arg = size :: rest) (hsize : Decimal size n) (hn : n < 2 ^ 63)
    (hopen : (handleBDAT server env s r arg).quit = false) :
    (handleBDAT server env s r arg).reader.stream = r.stream.drop n ↔
      (r.stream = [] ∨ n = 0) ∨ ¬ Unreported server env s rest n ∧ InTime server env s r rest n := by
  rw [handleBDAT_eq hargs hsize hn] at hopen ⊢
  unfold handleChunk at hopen ⊢
  rw [if_neg (Int.not_lt.mpr (Int.natCast_nonneg n))] at hopen ⊢
  by_cases hun : Unreported server env s rest n
  · obtain ⟨hwritten, hstate, hlast, hlarge⟩ := id hun
    rw [if_neg (not_not.mpr hstate), if_neg fun h => h.2 (hlast h.1), if_pos hlarge, hwritten,
      or_iff_left fun h => h.1 hun]
    exact drop_eq_self_iff
  rw [and_iff_right hun, or_iff_right_of_imp inTime_of_none, InTime]
  by_cases hstate : s.state ≠ .rcptTo
  · have hrefused : isRefused server s rest n = true := by simp [isRefused, hstate]
    rw [if_pos hstate] at hopen ⊢
    rw [if_pos hrefused]
    exact discardBDATChunk_stream_iff hopen
  rw [if_neg hstate] at hopen ⊢
  by_cases hextra : rest ≠ [] ∧ rest.map server.tools.toUpper ≠ [bytes "LAST"]
  · have hrefused : isRefused server s rest n = true := by
      rw [isRefused, decide_eq_true hextra.1, decide_eq_true hextra.2]
      simp
    rw [if_pos hextra] at hopen ⊢
    rw [if_pos hrefused]
    exact discardBDATChunk_stream_iff hopen
  rw [if_neg hextra] at hopen ⊢
  by_cases hlarge : (n : Int) > (server.config.limits.maxMessageSize : Int) - (s.bdatBuffer.getD []).length
  · have hrefused : isRefused server s rest n = true := by
      rw [isRefused, decide_eq_true hlarge, Bool.or_true]
    have hwritten : env.written = true := by
      by_contra hnot
      exact hun ⟨eq_false_of_ne_true hnot, not_not.mp hstate,
        fun hne => not_not.mp fun hother => hextra ⟨hne, hother⟩, hlarge⟩
    rw [if_pos hlarge, hwritten] at hopen ⊢
    rw [if_pos hrefused]
    exact discardBDATChunk_stream_iff hopen
  · have hrefused : isRefused server s rest n = false := by
      rw [isRefused, decide_eq_false hstate, decide_eq_false hlarge, ← Bool.decide_and,
        decide_eq_false hextra]
      rfl
    rw [if_neg hlarge, hrefused, storeChunk_reader]
    exact readChunk_stream_iff

-- A size beyond the machine's numbers is a syntax error or a bad sequence, and
-- what it announces is left on the connection.
theorem handleBDAT_oversized (hargs : fields arg = size :: rest) (hsize : Decimal size n)
    (hn : ¬ n < 2 ^ 63) : (handleBDAT server env s r arg).reader = r := by
  have hparse : parseInt64 size = none := by rw [parseInt64_decimal hsize, if_neg hn]
  rw [handleBDAT, hargs, List.head?_cons, Option.bind_some]
  dsimp only
  rw [hparse]
  split_ifs <;> rfl

end Discarding

inductive Handover (ρ : Type)
  | pipeline (ctx : MessageContext)
  | delivery (delivery : Option (Delivery ρ))
  deriving DecidableEq, Repr

def Effect.handover {ρ : Type} : Effect ρ → Option (Handover ρ)
  | .pipeline ctx => some (.pipeline ctx)
  | .deliver _ delivery => some (.delivery delivery)
  | _ => none

def handovers {ρ : Type} (effects : List (Effect ρ)) : List (Handover ρ) :=
  effects.filterMap Effect.handover

-- The replies to a message that is too large, that has what no message may have,
-- or that speaks for somebody else.
def refusesMessage {ρ : Type} (effects : List (Effect ρ)) : Bool :=
  effects.any fun e => [552, 553, 554].any fun code => e.code = some code

section Handovers

variable {World ρ : Type} {server : Server World ρ} {w : World} {s : Session} {data : Bytes}

theorem handovers_append (effects effects' : List (Effect ρ)) :
    handovers (effects ++ effects') = handovers effects ++ handovers effects' := List.filterMap_append

theorem deliverMessage_handovers (replies : MessageReplies) (verdict : Option (Verdict ρ)) :
    handovers (deliverMessage server w replies s verdict data).2 = [.delivery (deliveryOf server
      { s with data := server.addTraceHeaders w s.traceInfo verdict data } verdict)] := by
  unfold deliverMessage
  dsimp only
  split <;> rfl

-- What is handed over depends neither on the command nor on the fields that the
-- two commands leave different.
theorem processMessage_handovers (replies replies' : MessageReplies) (state : SessionState) (old : Bytes)
    (buffer : Option Bytes) :
    handovers (processMessage server w replies
        { s with state := state, data := old, bdatBuffer := buffer } data).2 =
      handovers (processMessage server w replies' s data).2 := by
  unfold processMessage
  split_ifs
  · rfl
  · rfl
  · cases server.pipeline with
    | none => rw [deliverMessage_handovers, deliverMessage_handovers]; rfl
    | some process =>
      have hctx : messageContext { s with state := state, data := old, bdatBuffer := buffer } data =
          messageContext s data := rfl
      rw [hctx]
      refine congrArg (Handover.pipeline (messageContext s data) :: ·) ?_
      cases process w (messageContext s data) with
      | timedOut | failed | rejected => rfl
      | quarantined | accepted =>
        exact (deliverMessage_handovers ..).trans (deliverMessage_handovers ..).symm

theorem refusesMessage_of_processMessage {replies : MessageReplies}
    (h : handovers (processMessage server w replies s data).2 = []) :
    refusesMessage (processMessage server w replies s data).2 = true := by
  unfold processMessage at h ⊢
  split_ifs at h ⊢
  · rfl
  · rfl
  · cases hpipeline : server.pipeline with
    | none | some =>
      rw [hpipeline] at h
      cases h

end Handovers

structure ChunkCommand (World : Type) where
  arg : Bytes
  env : Env World
  reader : Reader UInt8
  octets : Bytes

def sendChunks {World ρ : Type} (server : Server World ρ) :
    Session → List (ChunkCommand World) → List (Turn ρ)
  | _, [] => []
  | s, c :: rest =>
    let turn := handleBDAT server c.env s c.reader c.arg
    turn :: if turn.quit then [] else sendChunks server turn.session rest

-- The command announces what follows, and it comes before the deadline and within
-- what the session may send.
structure Sends {World ρ : Type} (server : Server World ρ) (isLast : Bool) (c : ChunkCommand World) :
    Prop where
  announced : ∃ size rest, fields c.arg = size :: rest ∧ Decimal size c.octets.length ∧
    rest.map server.tools.toUpper = if isLast then [bytes "LAST"] else []
  representable : c.octets.length < 2 ^ 63
  flowing : Flowing c.reader
  inTime : c.reader.readsLeft ≤ c.env.reads
  budget : WithinBudget server.config.limits c.reader
  arrives : c.octets <+: c.reader.stream

section Sending

variable {World ρ : Type} {server : Server World ρ} {s : Session} {c : ChunkCommand World} {isLast : Bool}
  {env : Env World} {r : Reader UInt8}

def Session.received (s : Session) : Bytes := s.bdatBuffer.getD []

theorem readChunk_spec (h : Sends server isLast c) :
    ∃ r', readChunk c.env c.octets.length c.reader = ⟨c.octets, true, r'⟩ ∧
      r'.taken ≤ server.config.limits.maxSessionBytes := by
  obtain ⟨rest, hrest⟩ := h.arrives
  unfold readChunk
  split_ifs with hzero
  · rw [List.length_eq_zero_iff.mp hzero]
    exact ⟨c.reader, rfl, (Nat.le_add_right _ _).trans h.budget⟩
  · obtain ⟨r', hcopy, -, hlater⟩ := @copyN_spec _ c.reader c.octets.length c.env.room _ h.flowing h.inTime
    refine ⟨r', ?_, Nat.not_lt.mp (h.budget.later hlater).2⟩
    rw [hcopy, ← hrest, List.take_left, decide_eq_true (by simp)]

theorem storeChunk_spec (h : Sends server isLast c) :
    ∃ r', storeChunk server c.env s c.reader c.octets.length isLast =
      if isLast then
        let processed := finishBDAT server c.env.world s (s.received ++ c.octets)
        ⟨processed.1, r', processed.2, false⟩
      else answer { s with bdatBuffer := some (s.received ++ c.octets) } r' 250 (bytes "2.0.0 OK") := by
  obtain ⟨r', hread, htaken⟩ := readChunk_spec h
  refine ⟨r', ?_⟩
  rw [storeChunk, hread]
  rw [if_neg (by simp), if_neg fun hover => absurd hover.2 (Nat.not_lt.mpr htaken)]
  rfl

theorem handleBDAT_sends (h : Sends server isLast c) (hstate : s.state = .rcptTo) :
    handleBDAT server c.env s c.reader c.arg =
      if server.config.limits.maxMessageSize < (s.received ++ c.octets).length then
        if !c.env.written then answer s.resetTransaction c.reader 552 tooLargeText
        else discardBDATChunk server c.env c.octets.length
          (answer s.resetTransaction c.reader 552 tooLargeText)
      else storeChunk server c.env s c.reader c.octets.length isLast := by
  obtain ⟨size, rest, hargs, hsize, hrest⟩ := h.announced
  have hlast : decide (rest ≠ []) = isLast := by
    cases isLast with
    | true =>
      have hne : rest ≠ [] := fun hnil => by simp [hnil] at hrest
      exact decide_eq_true hne
    | false =>
      have hnil : rest = [] := List.map_eq_nil_iff.mp hrest
      simp [hnil]
  have hwords : ¬ (rest ≠ [] ∧ rest.map server.tools.toUpper ≠ [bytes "LAST"]) := by
    rintro ⟨hne, hnot⟩
    cases isLast with
    | true => exact hnot hrest
    | false => exact hne (List.map_eq_nil_iff.mp hrest)
  have hlarge : ((c.octets.length : Int) > (server.config.limits.maxMessageSize : Int) -
      (s.bdatBuffer.getD []).length) ↔
        server.config.limits.maxMessageSize < (s.received ++ c.octets).length := by
    rw [List.length_append, Session.received]
    omega
  rw [handleBDAT_eq hargs hsize h.representable, if_neg (not_not.mpr hstate), handleChunk,
    if_neg (Int.not_lt.mpr (Int.natCast_nonneg _)), if_neg hwords, hlast]
  exact if_congr hlarge rfl rfl

structure Declines (turn : Turn ρ) : Prop where
  handovers : handovers turn.effects = []
  state : turn.session.state ≠ .rcptTo

theorem Declines.discard {turn : Turn ρ} (h : Declines turn) {size : Int} :
    Declines (discardBDATChunk server env size turn) := by
  unfold discardBDATChunk
  split_ifs
  · exact h
  · refine ⟨?_, resetTransaction_state.2⟩
    rw [handovers_append, h.handovers]
    rfl
  · exact ⟨h.handovers, h.state⟩

theorem declines_of_state {arg : Bytes} (hstate : s.state ≠ .rcptTo) :
    Declines (handleBDAT server env s r arg) := by
  have hanswer : Declines (answer s r 503 badSequenceText : Turn ρ) := ⟨rfl, hstate⟩
  rw [handleBDAT, if_pos hstate]
  split
  · exact hanswer.discard
  · exact hanswer

theorem sendChunks_declined (hstate : s.state ≠ .rcptTo) (cs : List (ChunkCommand World)) :
    handovers ((sendChunks server s cs).flatMap Turn.effects) = [] := by
  induction cs generalizing s with
  | nil => rfl
  | cons c cs ih =>
    have hdeclines := @declines_of_state _ _ server s c.env c.reader c.arg hstate
    rw [sendChunks, List.flatMap_cons, handovers_append, hdeclines.handovers]
    split_ifs
    · rfl
    · exact ih hdeclines.state

theorem refusesMessage_append (effects effects' : List (Effect ρ)) :
    refusesMessage (effects ++ effects') = (refusesMessage effects || refusesMessage effects') :=
  List.any_append

theorem handleBDAT_tooLarge (h : Sends server isLast c) (hstate : s.state = .rcptTo)
    (hlarge : server.config.limits.maxMessageSize < (s.received ++ c.octets).length) :
    Declines (handleBDAT server c.env s c.reader c.arg) ∧
      refusesMessage (handleBDAT server c.env s c.reader c.arg).effects = true := by
  have hanswer : Declines (answer s.resetTransaction c.reader 552 tooLargeText : Turn ρ) :=
    ⟨rfl, resetTransaction_state.2⟩
  rw [handleBDAT_sends h hstate]
  split_ifs
  · exact ⟨hanswer, rfl⟩
  · refine ⟨hanswer.discard, ?_⟩
    unfold discardBDATChunk
    split_ifs <;> rfl

-- Chunks come to the same as their octets in one piece.
theorem sendChunks_outcome {init : List (ChunkCommand World)} {last : ChunkCommand World}
    (hstate : s.state = .rcptTo) (hinit : ∀ c ∈ init, Sends server false c) (hlast : Sends server true last)
    {raw : Bytes} (hraw : raw = s.received ++ (init ++ [last]).flatMap ChunkCommand.octets) :
    let effects := (sendChunks server s (init ++ [last])).flatMap Turn.effects
    (raw.length ≤ server.config.limits.maxMessageSize →
      handovers effects = handovers (finishBDAT server last.env.world s raw).2 ∧
        (refusesMessage (finishBDAT server last.env.world s raw).2 = true → refusesMessage effects = true)) ∧
    (server.config.limits.maxMessageSize < raw.length →
      handovers effects = [] ∧ refusesMessage effects = true) := by
  induction init generalizing s with
  | nil =>
    have hone : (sendChunks server s [last]).flatMap Turn.effects =
        (handleBDAT server last.env s last.reader last.arg).effects := by
      rw [sendChunks]
      split_ifs <;> simp [sendChunks]
    have hraw' : raw = s.received ++ last.octets := by simpa using hraw
    rw [List.nil_append, hone]
    refine ⟨fun hfits => ?_, fun hlarge => ?_⟩
    · obtain ⟨r', hstore⟩ := @storeChunk_spec _ _ server s last true hlast
      rw [handleBDAT_sends hlast hstate, if_neg (by rw [← hraw']; omega), hstore, ← hraw']
      exact ⟨rfl, id⟩
    · obtain ⟨hdeclines, hrefuses⟩ := handleBDAT_tooLarge hlast hstate (hraw' ▸ hlarge)
      exact ⟨hdeclines.handovers, hrefuses⟩
  | cons c init ih =>
    obtain ⟨hc, hinit⟩ := List.forall_mem_cons.mp hinit
    have hraw' : raw = (s.received ++ c.octets) ++ (init ++ [last]).flatMap ChunkCommand.octets := by
      rw [hraw, List.cons_append, List.flatMap_cons, List.append_assoc]
    dsimp only
    rw [List.cons_append, sendChunks, List.flatMap_cons, handovers_append, refusesMessage_append]
    by_cases hlarge : server.config.limits.maxMessageSize < (s.received ++ c.octets).length
    · obtain ⟨hdeclines, hrefuses⟩ := handleBDAT_tooLarge hc hstate hlarge
      have hmore : (s.received ++ c.octets).length ≤ raw.length := by
        rw [hraw']
        exact (List.prefix_append _ _).length_le
      refine ⟨fun hfits => by omega, fun _ => ?_⟩
      rw [hdeclines.handovers, hrefuses]
      refine ⟨?_, rfl⟩
      split_ifs
      · rfl
      · exact sendChunks_declined hdeclines.state _
    · obtain ⟨r', hstore⟩ := @storeChunk_spec _ _ server s c false hc
      rw [handleBDAT_sends hc hstate, if_neg hlarge, hstore]
      have htail := @ih { s with bdatBuffer := some (s.received ++ c.octets) } hstate hinit hraw'
      refine ⟨fun hfits => ?_, fun hover => ?_⟩
      · obtain ⟨hsame, hrefuses⟩ := htail.1 hfits
        exact ⟨hsame, fun h => by rw [Bool.or_eq_true]; exact .inr (hrefuses h)⟩
      · obtain ⟨hnone, hrefuses⟩ := htail.2 hover
        exact ⟨hnone, by rw [Bool.or_eq_true]; exact .inr hrefuses⟩

theorem length_le_normalizeLoop (afterCR : Bool) (data : Bytes) :
    data.length ≤ (normalizeLoop afterCR data).length := by
  induction data generalizing afterCR with
  | nil => rfl
  | cons c data ih =>
    have htail := ih (decide (c = 13))
    rw [normalizeLoop, List.length_append]
    split_ifs
    · simp only [List.length_cons]
      omega
    · simp only [List.length_cons]
      omega

def CleanContent (m : Bytes) : Prop := hasOverlongLine m = false ∧ 0 ∉ m ∧ hasBareCR m = false

theorem bdatContentReply_eq_none {m : Bytes} (hbinary : s.mailBinary = false) :
    bdatContentReply s m = none ↔ CleanContent m := by
  unfold bdatContentReply CleanContent
  rw [hbinary]
  cases hcr : hasBareCR m <;> cases hlong : hasOverlongLine m <;> by_cases hnull : 0 ∈ m <;> simp

theorem finishBDAT_clean {w : World} {m : Bytes} (hbinary : s.mailBinary = false) (hclean : CleanContent m) :
    finishBDAT server w s m =
      processMessage server w bdatReplies { s with bdatBuffer := none } (normalizeBareLF m) := by
  rw [finishBDAT]
  rw [(@bdatContentReply_eq_none { s with bdatBuffer := none } m hbinary).mpr hclean, hbinary]
  rfl

theorem finishBDAT_refused {w : World} {m : Bytes} (hbinary : s.mailBinary = false)
    (hbad : ¬ (CleanContent m ∧ (normalizeBareLF m).length ≤ server.config.limits.maxMessageSize)) :
    handovers (finishBDAT server w s m).2 = [] ∧ refusesMessage (finishBDAT server w s m).2 = true := by
  by_cases hclean : CleanContent m
  · have hlarge : server.config.limits.maxMessageSize < (normalizeBareLF m).length := by
      by_contra hfits
      exact hbad ⟨hclean, Nat.not_lt.mp hfits⟩
    rw [finishBDAT_clean hbinary hclean, processMessage, if_pos hlarge]
    exact ⟨rfl, rfl⟩
  · rw [finishBDAT]
    rcases hreply : bdatContentReply { s with bdatBuffer := none } m with _ | reply
    · exact absurd ((bdatContentReply_eq_none hbinary).mp hreply) hclean
    refine ⟨rfl, ?_⟩
    unfold bdatContentReply at hreply
    split_ifs at hreply <;> · cases hreply; rfl

-- How DATA ends on a message, in the same terms.
theorem handleDATA_message {m rest : Bytes} (hstate : s.state = .rcptTo)
    (hbuffer : s.bdatBuffer = none) (hbinary : s.mailBinary = false) (hwritten : env.written = true)
    (hflow : Flowing r) (hbudget : WithinBudget server.config.limits r) (hm : EndsInCRLF m)
    (hstream : r.stream = dotStuffed m ++ dotCRLF ++ rest) :
    ((CleanContent m ∧ (normalizeBareLF m).length ≤ server.config.limits.maxMessageSize) ∧
      (handleDATA server env s r).effects = startMailInput ::
        (processMessage server env.world dataReplies { s with state := .data } (normalizeBareLF m)).2) ∨
    (¬ (CleanContent m ∧ (normalizeBareLF m).length ≤ server.config.limits.maxMessageSize) ∧
      handovers (handleDATA server env s r).effects = [] ∧
        refusesMessage (handleDATA server env s r).effects = true) := by
  obtain ⟨result, r', hread, -, hresult⟩ := readData_message hflow hbudget hm hstream
  have hturn : handleDATA server env s r =
      endDATA server env { s with state := .data } r (.ok (result, r')) := by
    rw [handleDATA, if_neg (by simp [hstate, hbuffer, hbinary]), if_neg (by simp [hwritten]), hread]
  rw [hturn]
  cases result with
  | ok data =>
    obtain ⟨hclean, hsize, rfl⟩ := (hresult data).mp rfl
    exact .inl ⟨⟨hclean, hsize⟩, rfl⟩
  | error e =>
    refine .inr ⟨fun hok => ?_, rfl, ?_⟩
    · cases (hresult _).mpr ⟨hok.1, hok.2, rfl⟩
    · cases e <;> rfl

end Sending

section Agreement

variable {World ρ : Type}

structure AwaitsMessage (s : Session) : Prop where
  state : s.state = .rcptTo
  buffer : s.bdatBuffer = none
  binary : s.mailBinary = false

structure SendsByDATA (server : Server World ρ) (env : Env World) (r : Reader UInt8) (m : Bytes) : Prop where
  written : env.written = true
  flowing : Flowing r
  budget : WithinBudget server.config.limits r
  stream : ∃ rest, r.stream = dotStuffed m ++ dotCRLF ++ rest

structure SendsByBDAT (server : Server World ρ) (init : List (ChunkCommand World))
    (last : ChunkCommand World) (m : Bytes) : Prop where
  first : ∀ c ∈ init, Sends server false c
  final : Sends server true last
  octets : (init ++ [last]).flatMap ChunkCommand.octets = m

-- The same is handed over, or nothing is and the message is refused both times.
def Agree (effects effects' : List (Effect ρ)) : Prop :=
  handovers effects = handovers effects' ∧
    (handovers effects = [] → refusesMessage effects = true ∧ refusesMessage effects' = true)

theorem agree_of_sent {server : Server World ρ} {s : Session} {env : Env World} {r : Reader UInt8} {m : Bytes}
    {init : List (ChunkCommand World)} {last : ChunkCommand World} (hs : AwaitsMessage s)
    (hm : EndsInCRLF m) (hdata : SendsByDATA server env r m) (hbdat : SendsByBDAT server init last m)
    (hworld : last.env.world = env.world) :
    Agree (handleDATA server env s r).effects
      ((sendChunks server s (init ++ [last])).flatMap Turn.effects) := by
  have hraw : m = s.received ++ (init ++ [last]).flatMap ChunkCommand.octets := by
    rw [hbdat.octets, Session.received, hs.buffer]
    rfl
  obtain ⟨rest, hstream⟩ := hdata.stream
  obtain ⟨hfits, hlarge⟩ := sendChunks_outcome hs.state hbdat.first hbdat.final hraw
  rw [hworld] at hfits
  rcases handleDATA_message hs.state hs.buffer hs.binary hdata.written hdata.flowing hdata.budget hm
      hstream with
    ⟨⟨hclean, hsize⟩, heffects⟩ | ⟨hbad, hnone, hrefuses⟩
  · have hlength : m.length ≤ server.config.limits.maxMessageSize :=
      (length_le_normalizeLoop false m).trans hsize
    obtain ⟨hsame, hrefuses⟩ := hfits hlength
    rw [finishBDAT_clean hs.binary hclean] at hsame hrefuses
    have hdata := @processMessage_handovers _ _ server env.world s (normalizeBareLF m) dataReplies bdatReplies
      .data s.data s.bdatBuffer
    have hchunks := @processMessage_handovers _ _ server env.world s (normalizeBareLF m) bdatReplies bdatReplies
      s.state s.data none
    rw [heffects, Agree, hsame]
    refine ⟨hdata.trans hchunks.symm, fun hempty => ⟨?_, ?_⟩⟩
    · rw [← List.singleton_append, refusesMessage_append, refusesMessage_of_processMessage hempty,
        Bool.or_true]
    · exact hrefuses (refusesMessage_of_processMessage (hchunks.trans (hdata.symm.trans hempty)))
  · rw [Agree, hnone]
    rcases Nat.lt_or_ge server.config.limits.maxMessageSize m.length with hover | hunder
    · obtain ⟨hempty, hrefuses'⟩ := hlarge hover
      exact ⟨hempty.symm, fun _ => ⟨hrefuses, hrefuses'⟩⟩
    · obtain ⟨hsame, hrefuses'⟩ := hfits hunder
      obtain ⟨hempty, hfinish⟩ := @finishBDAT_refused _ _ server s env.world m hs.binary hbad
      exact ⟨(hsame.trans hempty).symm, fun _ => ⟨hrefuses, hrefuses' hfinish⟩⟩

-- A size that does not fit is a syntax error, but what follows is executed.
theorem handleBDAT_executes_content :
    let r : Reader UInt8 := ⟨16, bytes "QUIT\r\n", [], 6⟩
    let arg := bytes "9223372036854775808 LAST"
    let turn := handleBDAT plainServer (plainEvent [] []).env { plainSession with state := .rcptTo } r arg
    Decimal (bytes "9223372036854775808") 9223372036854775808 ∧
      fields arg = [bytes "9223372036854775808", bytes "LAST"] ∧ turn.quit = false ∧
      turn.effects = [.reply 501 (bytes "5.5.4 Syntax error in BDAT size parameter")] ∧
      turn.reader.stream = bytes "QUIT\r\n" := by
  refine ⟨⟨by decide, by decide⟩, ?_⟩
  decide

-- DATA and BDAT hand over the same message or refuse it both, and the octets of a
-- chunk are taken as content exactly when its size can be read, they come in time
-- and it is not refused without a word.
theorem data_bdat_agree (server : Server World ρ) :
    (∀ (s : Session) (env : Env World) (r : Reader UInt8) (m : Bytes)
        (init : List (ChunkCommand World)) (last : ChunkCommand World),
      AwaitsMessage s → EndsInCRLF m → SendsByDATA server env r m → SendsByBDAT server init last m →
      last.env.world = env.world →
      Agree (handleDATA server env s r).effects
        ((sendChunks server s (init ++ [last])).flatMap Turn.effects)) ∧
    (∀ (s : Session) (env : Env World) (r : Reader UInt8) (arg size : Bytes) (words : List Bytes) (n : Nat),
      fields arg = size :: words → Decimal size n → (handleBDAT server env s r arg).quit = false →
      ((handleBDAT server env s r arg).reader.stream = r.stream.drop n ↔
        (r.stream = [] ∨ n = 0) ∨
          n < 2 ^ 63 ∧ ¬ Unreported server env s words n ∧ InTime server env s r words n)) := by
  refine ⟨fun s env r m init last hs hm hdata hbdat hworld => agree_of_sent hs hm hdata hbdat hworld, ?_⟩
  intro s env r arg size words n hargs hsize hopen
  by_cases hn : n < 2 ^ 63
  · rw [and_iff_right hn]
    exact handleBDAT_stream_iff hargs hsize hn hopen
  · rw [handleBDAT_oversized hargs hsize hn, or_iff_left fun h => hn h.1]
    exact drop_eq_self_iff

-- A line end that two chunks share, and a chunk with a word too much.
theorem data_bdat_agree_cut :
    let r : Reader UInt8 := ⟨16, [], [bytes "x\r\n.\r\n"], 0⟩
    let s := { plainSession with state := .rcptTo, data := [] }
    let env := (plainEvent [] []).env
    let first : ChunkCommand Unit := ⟨bytes "2", env, ⟨16, [], [bytes "x\r"], 0⟩, bytes "x\r"⟩
    let last : ChunkCommand Unit := ⟨bytes "1 last", env, ⟨16, [], [[10, 81]], 2⟩, [10]⟩
    Agree (handleDATA plainServer env s r).effects
        ((sendChunks plainServer s ([first] ++ [last])).flatMap Turn.effects) ∧
      (handleBDAT plainServer env s r (bytes "3 all")).reader.stream = r.stream.drop 3 := by
  intro r s env first last
  have hflow : ∀ r : Reader UInt8, 0 < r.size → r.buffered.length ≤ r.size → r.arrivals.length < 100 →
      Flowing r :=
    fun r hpos hfits hfew => ⟨hpos, hfits, fun h => absurd h.length_le (by
      exact Nat.not_le.mpr hfew)⟩
  have hsends : Sends plainServer false first :=
    ⟨⟨bytes "2", [], by decide, ⟨by decide, by decide⟩, rfl⟩, by decide,
      hflow _ (by decide) (by decide) (by decide), by decide, by unfold WithinBudget; decide,
      by decide⟩
  have hends : Sends plainServer true last :=
    ⟨⟨bytes "1", [bytes "last"], by decide, ⟨by decide, by decide⟩, by decide⟩, by decide,
      hflow _ (by decide) (by decide) (by decide), by decide, by unfold WithinBudget; decide,
      by decide⟩
  have hagree := data_bdat_agree plainServer
  refine ⟨hagree.1 s env r (bytes "x\r\n") [first] last ⟨rfl, rfl, rfl⟩ (.inr ⟨[120], by decide⟩)
    ⟨rfl, hflow _ (by decide) (by decide) (by decide), by unfold WithinBudget; decide,
      [], by decide⟩
    ⟨fun c hc => ?_, hends, by decide⟩ rfl, ?_⟩
  · rw [List.mem_singleton.mp hc]
    exact hsends
  · exact (hagree.2 s env r (bytes "3 all") (bytes "3") [bytes "all"] 3 (by decide)
      ⟨by decide, by decide⟩ (by decide)).mpr (.inr ⟨by decide, fun h => absurd h.1 (by decide),
        by unfold InTime; decide⟩)

end Agreement

end UMail.Smtp
