import UMail.Library.Paging
import UMail.Storage.Changes.Rows
import Mathlib.Tactic.NormNum

namespace UMail.Storage

open Scan (seek)
open Std (ExtTreeMap)

section Model

-- A reader among writers. The log has what was in the journal at first and what
-- was recorded since; `seen` is the log as it was at the reader's last call.
structure Session where
  changes : Changes
  sinceSeq : UInt64
  received : List ChangeEntry
  hasMore : Option Bool
  log : List ChangeEntry
  seen : List ChangeEntry

def Session.start (changes : Changes) (user : Bytes) (sinceSeq : UInt64) : Session :=
  let entries := (changes.journal user).entries
  ⟨changes, sinceSeq, [], none, entries, entries⟩

inductive Event
  | record (env : ChangeEnv) (user : Bytes) (change : Change)
  | call
  deriving DecidableEq, Repr

-- The reader calls again as long as there is more.
def Session.step (user : Bytes) (type : ChangeType) (max : Int) (session : Session) : Event → Session
  | .record env writer change =>
    let entry := (session.changes.journal user).entryFor env.now change
    { session with
      changes := session.changes.recordChange env writer change
      log := if writer = user ∧ ¬ (user = [] ∨ env.fault) then session.log ++ [entry] else session.log }
  | .call =>
    if session.hasMore = some false then session
    else
      let page := session.changes.getChangesSince user type session.sinceSeq max
      { session with
        sinceSeq := page.lastSeq
        received := session.received ++ page.entries
        hasMore := some page.hasMore
        seen := session.log }

def readSession (history : List (ChangeEnv × JournalCall)) (user : Bytes) (type : ChangeType)
    (sinceSeq : UInt64) (max : Int) (events : List Event) : Session :=
  events.foldl (Session.step user type max) (.start (runJournal history) user sinceSeq)

-- The reader has entries of its type after its start only, in order, and after
-- each call knows whether it lacks any that had been recorded by then.
structure Session.Exact (type : ChangeType) (sinceSeq : UInt64) (session : Session) : Prop where
  increasing : session.received.Pairwise fun a b => a.seq < b.seq
  sound : ∀ e ∈ session.received, e ∈ session.seen ∧ e.type = type ∧ sinceSeq < e.seq
  complete : session.hasMore = some false →
    ∀ e ∈ session.seen, e.type = type → sinceSeq < e.seq → e ∈ session.received
  more : ∀ more, session.hasMore = some more →
    (more = true ↔ ∃ e ∈ session.seen, e.type = type ∧ sinceSeq < e.seq ∧ e ∉ session.received)

def issued (user : Bytes) : Changes → List (ChangeEnv × JournalCall) → List UInt64
  | _, [] => []
  | changes, (env, call) :: calls =>
    let later := issued user (call.apply env changes) calls
    match call with
    | .record writer _ =>
      if writer = user ∧ ¬ (user = [] ∨ env.fault) then
        ((changes.journal user).sequence + 1) :: later
      else later
    | _ => later

end Model

section Pages

def isType (type : ChangeType) (e : ChangeEntry) : Bool := e.type = type

-- The loop takes what still fits on the page, and looks one entry further.
theorem sinceLoop_spec {type : ChangeType} {max : Nat} (rows : List (UInt64 × Option ChangeEntry))
    (page : Page) (hmore : page.hasMore = false) (hfits : page.entries.length ≤ max) :
    sinceLoop type max page rows =
      let found := (rows.filterMap Prod.snd).filter (isType type)
      let free := max - page.entries.length
      ⟨page.entries ++ found.take free, decide (free < found.length),
        ((found.take free).getLast?.map ChangeEntry.seq).getD page.lastSeq⟩ := by
  induction rows generalizing page with
  | nil =>
    obtain ⟨entries, hasMore, lastSeq⟩ := page
    cases hmore
    simp [sinceLoop]
  | cons row rows ih =>
    obtain ⟨key, entry⟩ := row
    rcases entry with _ | e
    · simpa [sinceLoop] using ih page hmore hfits
    by_cases htype : e.type = type
    · have hmatch : isType type e = true := decide_eq_true htype
      by_cases hfull : max ≤ page.entries.length
      · obtain ⟨entries, hasMore, lastSeq⟩ := page
        have hfree : max - entries.length = 0 := Nat.sub_eq_zero_of_le hfull
        simp [sinceLoop, htype, hfull, hmatch]
      have hfree : max - page.entries.length = (max - (page.entries.length + 1)) + 1 := by omega
      have hloop := ih { page with entries := page.entries ++ [e], lastSeq := e.seq } hmore
        (by simpa [Nat.succ_le_iff] using Nat.lt_of_not_le hfull)
      simp only [sinceLoop, htype, ne_eq, if_false, hfull, hloop,
        List.length_append, List.filterMap_cons, List.filter_cons, hmatch, if_true, hfree,
        List.take_succ_cons, List.length_cons, Nat.add_lt_add_iff_right,
        List.append_assoc, List.getLast?_cons, Option.map_some]
      cases (List.take (max - (page.entries.length + 1))
        (List.filter (isType type) (List.filterMap Prod.snd rows))).getLast? <;> rfl
    · have hother : isType type e = false := decide_eq_false htype
      simpa [sinceLoop, htype, hother] using ih page hmore hfits

variable {journal : Journal}

theorem Journal.Numbered.filterMap_filter (h : journal.Numbered) (sinceSeq : UInt64) :
    (journal.rows.toList.filter fun row => sinceSeq < row.1).filterMap Prod.snd =
      journal.entries.filter fun e => sinceSeq < e.seq := by
  have hrows : ∀ row ∈ journal.rows.toList, ∀ e, row.2 = some e → e.seq = row.1 := by
    rintro ⟨key, row⟩ hmem e he
    exact (h key row (ExtTreeMap.mem_toList_iff_getElem?_eq_some.mp hmem)).2 e he
  unfold Journal.entries
  generalize journal.rows.toList = rows at hrows
  induction rows with
  | nil => rfl
  | cons row rows ih =>
    have hih := ih fun other hother => hrows other (List.mem_cons_of_mem _ hother)
    obtain ⟨key, entry⟩ := row
    cases entry with
    | none =>
      by_cases hkey : sinceSeq < key
      · simpa [hkey] using hih
      · simpa [hkey] using hih
    | some e =>
      have hseq : e.seq = key := hrows _ List.mem_cons_self e rfl
      by_cases hkey : sinceSeq < key
      · simpa [hkey, hseq] using hih
      · simpa [hkey, hseq] using hih

theorem Journal.Numbered.entries_sorted (h : journal.Numbered) :
    journal.entries.Pairwise fun a b => a.seq < b.seq := by
  unfold Journal.entries
  rw [List.pairwise_filterMap]
  refine List.Pairwise.imp_of_mem ?_ ExtTreeMap.ordered_keys_toList
  rintro ⟨key, row⟩ ⟨key', row'⟩ hmem hmem' hlt e he e' he'
  rw [(h key row (ExtTreeMap.mem_toList_iff_getElem?_eq_some.mp hmem)).2 e he,
    (h key' row' (ExtTreeMap.mem_toList_iff_getElem?_eq_some.mp hmem')).2 e' he']
  exact Std.compare_eq_lt.mp hlt

theorem compare_succ_ne_lt {sinceSeq key : UInt64} (h : sinceSeq ≠ ~~~0) :
    compare key (sinceSeq + 1) ≠ .lt ↔ sinceSeq < key := by
  have hmax : sinceSeq.toNat ≠ 18446744073709551615 := fun hs =>
    h (UInt64.toNat_inj.mp (by rw [hs]; rfl))
  have hbound := sinceSeq.toNat_lt
  rw [Ne, Std.compare_eq_lt, UInt64.lt_iff_toNat_lt, UInt64.lt_iff_toNat_lt, UInt64.toNat_add]
  simp only [UInt64.toNat_one]
  omega

-- A page of the journal is a page of its entries of the type.
theorem Journal.Numbered.since_eq (h : journal.Numbered) (type : ChangeType) (sinceSeq : UInt64)
    (hsince : sinceSeq ≠ ~~~0) (max : Int) :
    journal.since type sinceSeq max =
      let log := journal.entries.filter (isType type)
      ⟨Paging.page ChangeEntry.seq (pageSize max) sinceSeq log,
        decide (pageSize max < (Paging.after ChangeEntry.seq sinceSeq log).length),
        Paging.next ChangeEntry.seq (pageSize max) sinceSeq log⟩ := by
  have hfound : ((seek (sinceSeq + 1) journal.rows).filterMap Prod.snd).filter (isType type) =
      Paging.after ChangeEntry.seq sinceSeq (journal.entries.filter (isType type)) := by
    rw [Scan.seek_eq_filter]
    simp only [compare_succ_ne_lt hsince, h.filterMap_filter]
    exact List.filter_comm ..
  unfold Journal.since
  rw [sinceLoop_spec _ _ rfl (Nat.zero_le _)]
  simp only [hfound]
  rfl

theorem entries_empty : Journal.empty.entries = [] := by
  simp [Journal.entries, Journal.empty]

theorem numbered_empty : Journal.empty.Numbered := by
  intro key row hrow
  simp [Journal.empty] at hrow

-- GetChangesSince reads a page, also where it does not look at the journal.
theorem getChangesSince_eq {changes : Changes} {user : Bytes} (h : (changes.journal user).Numbered)
    (type : ChangeType) (sinceSeq : UInt64) (max : Int) :
    changes.getChangesSince user type sinceSeq max =
      let log := (changes.journal user).entries.filter (isType type)
      ⟨Paging.page ChangeEntry.seq (pageSize max) sinceSeq log,
        decide (pageSize max < (Paging.after ChangeEntry.seq sinceSeq log).length),
        Paging.next ChangeEntry.seq (pageSize max) sinceSeq log⟩ := by
  have hnothing : ∀ log : List ChangeEntry, Paging.after ChangeEntry.seq sinceSeq log = [] →
      (⟨[], false, sinceSeq⟩ : Page) = ⟨Paging.page ChangeEntry.seq (pageSize max) sinceSeq log,
        decide (pageSize max < (Paging.after ChangeEntry.seq sinceSeq log).length),
        Paging.next ChangeEntry.seq (pageSize max) sinceSeq log⟩ := by
    intro log hlog
    simp [Paging.page, Paging.next, hlog]
  unfold Changes.getChangesSince
  split_ifs with hmax
  · refine hnothing _ (List.filter_eq_nil_iff.mpr fun e _ => ?_)
    have hbound := e.seq.toNat_lt
    have htop : sinceSeq.toNat = 18446744073709551615 := by rw [hmax]; rfl
    simp only [decide_eq_true_eq, UInt64.lt_iff_toNat_lt]
    omega
  · split
    · rename_i hnone
      have hjournal : changes.journal user = .empty := by simp [Changes.journal, hnone]
      exact hnothing _ (by simp [hjournal, entries_empty, Paging.after])
    · rename_i journal hsome
      obtain rfl := journal_of_getElem? hsome
      exact h.since_eq type sinceSeq hmax max

theorem Journal.Numbered.entries_record (h : journal.Numbered) {n : Nat}
    (hsequence : journal.sequence.toNat ≤ n) (hn : n + 1 < 2 ^ 64) (now : Int) (change : Change) :
    (journal.record now change).entries = journal.entries ++ [journal.entryFor now change] := by
  unfold Journal.entries Journal.record
  rw [Scan.toList_insert_last, List.filterMap_append]
  · rfl
  · intro key row hrow
    rw [Std.compare_eq_lt]
    exact Std.lt_of_le_of_lt (h key row hrow).1 (lt_entryFor hsequence hn now change)

end Pages

section Runs

variable {user : Bytes} {type : ChangeType} {sinceSeq : UInt64} {max : Int} {n : Nat}

variable {changes : Changes} {session : Session}

theorem journal_apply_numbered (h : (changes.journal user).Numbered)
    (hbound : (changes.journal user).sequence.toNat ≤ n) (hn : n + 1 < 2 ^ 64) {env : ChangeEnv}
    {call : JournalCall} : ((call.apply env changes).journal user).Numbered ∧
      ((call.apply env changes).journal user).sequence.toNat ≤ n + 1 := by
  rcases journal_apply env call with ⟨change, hrecord⟩ | hthin
  · rw [hrecord, toNat_sequence_record hbound hn]
    exact ⟨h.record hbound hn env.now change, by omega⟩
  · rw [hthin.sequence]
    exact ⟨h.thinned hthin, by omega⟩

theorem foldl_numbered (calls : List (ChangeEnv × JournalCall)) (h : (changes.journal user).Numbered)
    (hbound : (changes.journal user).sequence.toNat ≤ n) (hn : n + calls.length < 2 ^ 64) :
    ((calls.foldl (fun changes call => call.2.apply call.1 changes) changes).journal user).Numbered ∧
      ((calls.foldl (fun changes call => call.2.apply call.1 changes) changes).journal
        user).sequence.toNat ≤ n + calls.length := by
  induction calls generalizing changes n with
  | nil => exact ⟨h, hbound⟩
  | cons call calls ih =>
    rw [List.length_cons] at hn ⊢
    obtain ⟨hcall, hcallBound⟩ := journal_apply_numbered h hbound (by omega)
    have hlater := ih hcall hcallBound (by omega)
    rw [Nat.add_assoc, Nat.add_comm 1] at hlater
    exact hlater

theorem runJournal_numbered {history : List (ChangeEnv × JournalCall)}
    (hn : history.length < 2 ^ 64) :
    ((runJournal history).journal user).Numbered ∧
      ((runJournal history).journal user).sequence.toNat ≤ history.length := by
  have hstart : Changes.journal ∅ user = Journal.empty := by simp [Changes.journal]
  have hempty : (Changes.journal ∅ user).Numbered := hstart ▸ numbered_empty
  have hzero : (Changes.journal ∅ user).sequence.toNat ≤ 0 := by
    exact Nat.le_refl 0
  have h := foldl_numbered history hempty hzero (by omega)
  rw [Nat.zero_add] at h
  exact h

structure Session.Inv (user : Bytes) (type : ChangeType) (sinceSeq : UInt64) (n : Nat)
    (session : Session) : Prop where
  numbered : (session.changes.journal user).Numbered
  bound : (session.changes.journal user).sequence.toNat ≤ n
  log : session.log = (session.changes.journal user).entries
  start : sinceSeq ≤ session.sinceSeq
  passed : session.sinceSeq = sinceSeq ∨ session.sinceSeq ≤ (session.changes.journal user).sequence
  received : session.received =
    Paging.upTo ChangeEntry.seq sinceSeq session.sinceSeq (session.log.filter (isType type))
  seen : session.received =
    Paging.upTo ChangeEntry.seq sinceSeq session.sinceSeq (session.seen.filter (isType type))
  seen_sorted : session.seen.Pairwise fun a b => a.seq < b.seq
  more : ∀ more, session.hasMore = some more →
    (more = true ↔ ∃ e ∈ session.seen.filter (isType type), session.sinceSeq < e.seq)

theorem Session.inv_start (h : (changes.journal user).Numbered)
    (hbound : (changes.journal user).sequence.toNat ≤ n) :
    (Session.start changes user sinceSeq).Inv user type sinceSeq n where
  numbered := h
  bound := hbound
  log := rfl
  start := Std.le_refl _
  passed := Or.inl rfl
  received := (Paging.upTo_self _ _).symm
  seen := (Paging.upTo_self _ _).symm
  seen_sorted := h.entries_sorted
  more := fun more h => by cases h

theorem Session.Inv.record (h : session.Inv user type sinceSeq n) (hn : n + 1 < 2 ^ 64)
    (env : ChangeEnv) (writer : Bytes) (change : Change) :
    (session.step user type max (.record env writer change)).Inv user type sinceSeq (n + 1) := by
  have hjournal := journal_recordChange env session.changes writer change user
  unfold Session.step
  by_cases hwrites : writer = user ∧ ¬ (user = [] ∨ env.fault)
  · rw [if_pos hwrites] at hjournal
    have hlt := lt_entryFor h.bound hn env.now change
    have hsequence := toNat_sequence_record h.bound hn env.now change
    have hlater : session.sinceSeq = sinceSeq ∨
        session.sinceSeq < ((session.changes.journal user).entryFor env.now change).seq :=
      h.passed.imp_right fun hle => Std.lt_of_le_of_lt hle hlt
    simp only [if_pos hwrites]
    refine ⟨?_, ?_, ?_, h.start, ?_, ?_, h.seen, h.seen_sorted, h.more⟩
    · rw [hjournal]
      exact h.numbered.record h.bound hn env.now change
    · have hbound := h.bound
      rw [hjournal]
      omega
    · rw [hjournal, h.numbered.entries_record h.bound hn, h.log]
    · rw [hjournal]
      exact hlater.imp_right Std.le_of_lt
    · rw [List.filter_append]
      refine h.received.trans ?_
      rcases hlater with hsame | hlater
      · rw [hsame, Paging.upTo_self, Paging.upTo_self]
      · refine (Paging.upTo_append fun e he => ?_).symm
        obtain rfl := List.mem_singleton.mp (List.mem_of_mem_filter he)
        exact hlater
  · rw [if_neg hwrites] at hjournal
    simp only [if_neg hwrites]
    refine ⟨?_, ?_, ?_, h.start, ?_, h.received, h.seen, h.seen_sorted, h.more⟩
    · rw [hjournal]
      exact h.numbered
    · rw [hjournal]
      exact Nat.le_succ_of_le h.bound
    · rw [hjournal, h.log]
    · rw [hjournal]
      exact h.passed

theorem next_cases {size : Nat} {start : UInt64} {log : List ChangeEntry} :
    Paging.next ChangeEntry.seq size start log = start ∨
      ∃ e ∈ log, Paging.next ChangeEntry.seq size start log = e.seq := by
  unfold Paging.next
  rcases hlast : (Paging.page ChangeEntry.seq size start log).getLast? with _ | e
  · exact Or.inl rfl
  have hmem : e ∈ Paging.after ChangeEntry.seq start log :=
    List.mem_of_mem_take (List.mem_of_getLast? hlast)
  exact Or.inr ⟨e, (Paging.mem_after.mp hmem).1, rfl⟩

theorem Journal.Numbered.seq_le {journal : Journal} (h : journal.Numbered) {e : ChangeEntry}
    (he : e ∈ journal.entries) : e.seq ≤ journal.sequence := by
  obtain ⟨⟨key, row⟩, hmem, hrow⟩ := List.mem_filterMap.mp he
  obtain ⟨hle, hseq⟩ := h key row (ExtTreeMap.mem_toList_iff_getElem?_eq_some.mp hmem)
  rw [hseq e hrow]
  exact hle

theorem Session.Inv.call (h : session.Inv user type sinceSeq n) :
    (session.step user type max .call).Inv user type sinceSeq n := by
  unfold Session.step
  by_cases hdone : session.hasMore = some false
  · simp only [if_pos hdone]
    exact h
  have hsorted : (session.log.filter (isType type)).Pairwise fun a b => a.seq < b.seq := by
    rw [h.log]
    exact h.numbered.entries_sorted.filter _
  have hreceived := h.received
  simp only [if_neg hdone, getChangesSince_eq h.numbered, ← h.log]
  rw [hreceived, Paging.upTo_append_page hsorted h.start]
  refine ⟨h.numbered, h.bound, h.log, ?_, ?_, rfl, rfl, ?_, ?_⟩
  · exact Std.le_trans h.start (Paging.le_next _ _)
  · rcases next_cases with
      hsame | ⟨e, he, hlast⟩
    · rw [hsame]
      exact h.passed
    · rw [hlast]
      refine Or.inr (h.numbered.seq_le ?_)
      rw [← h.log]
      exact List.mem_of_mem_filter he
  · rw [h.log]
    exact h.numbered.entries_sorted
  · intro more hmore
    cases hmore
    rw [decide_eq_true_eq]
    exact Paging.size_lt_length_after hsorted

theorem Session.Inv.run (events : List Event) (h : session.Inv user type sinceSeq n)
    (hn : n + events.length < 2 ^ 64) :
    ∃ m, (events.foldl (Session.step user type max) session).Inv user type sinceSeq m := by
  induction events generalizing session n with
  | nil => exact ⟨n, h⟩
  | cons event events ih =>
    rw [List.length_cons] at hn
    cases event with
    | record env writer change => exact ih (h.record (by omega) env writer change) (by omega)
    | call => exact ih h.call (by omega)

theorem Session.Inv.exact (h : session.Inv user type sinceSeq n) : session.Exact type sinceSeq := by
  have hmem : ∀ e, e ∈ session.received ↔
      (e ∈ session.seen ∧ e.type = type) ∧ sinceSeq < e.seq ∧ ¬ session.sinceSeq < e.seq := by
    intro e
    rw [h.seen, Paging.mem_upTo, List.mem_filter, isType, decide_eq_true_eq]
  have hmore : ∀ more, session.hasMore = some more →
      (more = true ↔ ∃ e ∈ session.seen, e.type = type ∧ sinceSeq < e.seq ∧ e ∉ session.received) := by
    intro more hsome
    rw [h.more more hsome]
    constructor
    · rintro ⟨e, he, hlt⟩
      obtain ⟨hseen, htype⟩ := List.mem_filter.mp he
      refine ⟨e, hseen, decide_eq_true_eq.mp htype, Std.lt_of_le_of_lt h.start hlt, ?_⟩
      exact fun hreceived => ((hmem e).mp hreceived).2.2 hlt
    · rintro ⟨e, hseen, htype, hlt, hmissing⟩
      refine ⟨e, List.mem_filter.mpr ⟨hseen, decide_eq_true htype⟩, ?_⟩
      by_contra hpassed
      exact hmissing ((hmem e).mpr ⟨⟨hseen, htype⟩, hlt, hpassed⟩)
  refine ⟨?_, fun e he => ?_, fun hdone e hseen htype hlt => ?_, hmore⟩
  · rw [h.seen]
    exact ((h.seen_sorted.filter _).filter _).filter _
  · obtain ⟨⟨hseen, htype⟩, hlt, _⟩ := (hmem e).mp he
    exact ⟨hseen, htype, hlt⟩
  · by_contra hmissing
    exact absurd ((hmore false hdone).mpr ⟨e, hseen, htype, hlt, hmissing⟩) (by decide)

theorem issued_increasing {calls : List (ChangeEnv × JournalCall)}
    (hbound : (changes.journal user).sequence.toNat ≤ n) (hn : n + calls.length < 2 ^ 64) :
    (issued user changes calls).Pairwise (· < ·) ∧
      ∀ seq ∈ issued user changes calls, (changes.journal user).sequence < seq := by
  induction calls generalizing changes n with
  | nil => exact ⟨.nil, fun _ h => by cases h⟩
  | cons call calls ih =>
    obtain ⟨env, call⟩ := call
    rw [List.length_cons] at hn
    have hsame : ((call.apply env changes).journal user).sequence = (changes.journal user).sequence →
        (issued user (call.apply env changes) calls).Pairwise (· < ·) ∧
          ∀ seq ∈ issued user (call.apply env changes) calls,
            (changes.journal user).sequence < seq := by
      intro hsequence
      have hcall : ((call.apply env changes).journal user).sequence.toNat ≤ n := hsequence ▸ hbound
      have hlater := ih hcall (by omega)
      rw [hsequence] at hlater
      exact hlater
    cases call with
    | prune | damage => exact hsame (thinned_apply (fun _ _ h => by cases h)).sequence
    | record writer change =>
      have hjournal := journal_recordChange env changes writer change user
      simp only [issued]
      split_ifs with hwrites
      · rw [if_pos hwrites] at hjournal
        have hnext : (changes.journal user).sequence < (changes.journal user).sequence + 1 :=
          lt_entryFor hbound (by omega) env.now change
        have hafter : ((changes.recordChange env writer change).journal user).sequence =
            (changes.journal user).sequence + 1 := by
          rw [hjournal]
          rfl
        have hcount : ((changes.recordChange env writer change).journal user).sequence.toNat ≤ n + 1 := by
          rw [hjournal, toNat_sequence_record hbound (by omega)]
          omega
        have hlater := ih hcount (by omega)
        rw [hafter] at hlater
        refine ⟨List.pairwise_cons.mpr ⟨hlater.2, hlater.1⟩, fun seq hseq => ?_⟩
        rcases List.mem_cons.mp hseq with rfl | hseq
        · exact hnext
        · exact Std.lt_trans hnext (hlater.2 seq hseq)
      · rw [if_neg hwrites] at hjournal
        exact hsame (congrArg Journal.sequence hjournal)

end Runs

section Overrun

variable {n : Nat}

def longHistory (n : Nat) : List (ChangeEnv × JournalCall) :=
  (⟨0, false⟩, .record (bytes "u") ⟨.email, .created, bytes "a", []⟩) ::
    List.replicate n (⟨0, false⟩, .record (bytes "u") ⟨.mailbox, .created, bytes "m", []⟩)

def firstEntry : ChangeEntry := ⟨1, .email, .created, bytes "a", [], 0⟩

theorem journal_longHistory_succ (n : Nat) :
    (runJournal (longHistory (n + 1))).journal (bytes "u") =
      ((runJournal (longHistory n)).journal (bytes "u")).record 0 ⟨.mailbox, .created, bytes "m", []⟩ := by
  have hsplit : longHistory (n + 1) = longHistory n ++
      [(⟨0, false⟩, .record (bytes "u") ⟨.mailbox, .created, bytes "m", []⟩)] := by
    unfold longHistory
    rw [List.replicate_succ', List.cons_append]
  unfold runJournal
  rw [hsplit, List.foldl_append, List.foldl_cons, List.foldl_nil]
  exact (journal_recordChange _ _ _ _ _).trans (if_pos ⟨rfl, by decide⟩)

theorem journal_longHistory_zero : (runJournal (longHistory 0)).journal (bytes "u") =
    ⟨1, (∅ : ExtTreeMap UInt64 (Option ChangeEntry)).insert 1 (some firstEntry)⟩ := by
  have hrecord : (runJournal (longHistory 0)).journal (bytes "u") =
      (Changes.journal ∅ (bytes "u")).record 0 ⟨.email, .created, bytes "a", []⟩ :=
    (journal_recordChange ⟨0, false⟩ ∅ (bytes "u") ⟨.email, .created, bytes "a", []⟩ (bytes "u")).trans
      (if_pos ⟨rfl, by decide⟩)
  have hempty : Changes.journal ∅ (bytes "u") = Journal.empty := by simp [Changes.journal]
  have hentry : Journal.empty.entryFor 0 ⟨.email, .created, bytes "a", []⟩ = firstEntry := by
    decide
  rfl

-- Until the numbers come around, the first entry is the only one of a message.
theorem journal_longHistory (hn : n < 2 ^ 64) :
    ((runJournal (longHistory n)).journal (bytes "u")).sequence = UInt64.ofNat (n + 1) ∧
    ((runJournal (longHistory n)).journal (bytes "u")).rows[(1 : UInt64)]? = some (some firstEntry) ∧
    ∀ (key : UInt64) row, ((runJournal (longHistory n)).journal (bytes "u")).rows[key]? = some row →
      key ≠ 1 → ∀ e, row = some e → e.type = .mailbox := by
  induction n with
  | zero =>
    rw [journal_longHistory_zero]
    refine ⟨rfl, by simp, fun key row hrow hkey => ?_⟩
    simp [Ne.symm hkey] at hrow
  | succ n ih =>
    obtain ⟨hsequence, hfirst, hothers⟩ := ih (by omega)
    have hnext : ((runJournal (longHistory n)).journal (bytes "u")).sequence + 1 =
        UInt64.ofNat (n + 1 + 1) := by
      rw [hsequence, UInt64.ofNat_add (n + 1)]
      rfl
    have hne : UInt64.ofNat (n + 1 + 1) ≠ 1 := by
      intro h
      have hmod := congrArg UInt64.toNat h
      rw [UInt64.toNat_ofNat'] at hmod
      simp only [UInt64.toNat_one] at hmod
      omega
    rw [journal_longHistory_succ]
    unfold Journal.record Journal.entryFor
    simp only [hnext, ExtTreeMap.getElem?_insert, Std.compare_eq_iff_eq]
    refine ⟨trivial, by rw [if_neg hne]; exact hfirst, fun key row hrow hkey e he => ?_⟩
    split_ifs at hrow with hnew
    · subst he
      cases hrow
      rfl
    · exact hothers key row hrow hkey e he

theorem since_of_no_type {journal : Journal} {type : ChangeType} (sinceSeq : UInt64) (max : Int)
    (h : ∀ (key : UInt64) e, journal.rows[key]? = some (some e) → e.type ≠ type) :
    journal.since type sinceSeq max = ⟨[], false, sinceSeq⟩ := by
  have hnone : ((seek (sinceSeq + 1) journal.rows).filterMap Prod.snd).filter (isType type) = [] := by
    refine List.filter_eq_nil_iff.mpr fun e he => ?_
    obtain ⟨⟨key, row⟩, hmem, hrow⟩ := List.mem_filterMap.mp he
    rw [Scan.seek_eq_filter] at hmem
    have hat := ExtTreeMap.mem_toList_iff_getElem?_eq_some.mp (List.mem_of_mem_filter hmem)
    obtain rfl : row = some e := hrow
    simpa [isType] using h key e hat
  unfold Journal.since
  rw [sinceLoop_spec _ _ rfl (Nat.zero_le _)]
  simp [hnone]

-- The reader is not told of the first entry, which the last one has replaced.
theorem readSession_overrun (hn : n + 1 = 2 ^ 64) :
    ¬ (readSession (longHistory n) (bytes "u") .email 0 0
      [.record ⟨0, false⟩ (bytes "u") ⟨.mailbox, .created, bytes "m", []⟩, .call]).Exact .email 0 := by
  obtain ⟨hsequence, hfirst, hothers⟩ := journal_longHistory (show n < 2 ^ 64 by omega)
  have hsuccZero : UInt64.ofNat (n + 1) + 1 = 1 := by
    rw [hn]
    rfl
  have hfirstEntry : firstEntry ∈ ((runJournal (longHistory n)).journal (bytes "u")).entries :=
    List.mem_filterMap.mpr ⟨(1, some firstEntry),
      ExtTreeMap.mem_toList_iff_getElem?_eq_some.mpr hfirst, rfl⟩
  unfold readSession Session.start
  generalize runJournal (longHistory n) = changes at hsequence hfirst hothers hfirstEntry
  have hpage : (changes.recordChange ⟨0, false⟩ (bytes "u")
      ⟨.mailbox, .created, bytes "m", []⟩).getChangesSince (bytes "u") .email 0 0 = ⟨[], false, 0⟩ := by
    unfold Changes.getChangesSince Changes.recordChange
    rw [if_neg (by decide), if_neg (by decide), ExtTreeMap.getElem?_insert_self]
    refine since_of_no_type 0 0 fun key e hrow => ?_
    unfold Journal.record Journal.entryFor at hrow
    simp only [hsequence, hsuccZero, ExtTreeMap.getElem?_insert, Std.compare_eq_iff_eq] at hrow
    split_ifs at hrow with hkey
    · cases hrow
      decide
    · rw [hothers key _ hrow (Ne.symm hkey) e rfl]
      decide
  have hname : bytes "u" ≠ [] := by decide
  intro h
  simp [Session.step, hpage] at h
  have hmissing := h.complete rfl firstEntry (List.mem_append_left _ hfirstEntry) rfl (by decide)
  cases hmissing

-- The numbers of a journal come around after 2^64 entries.
theorem readSession_exact_fails_overrun :
    ¬ ∀ history user type sinceSeq max events,
      (readSession history user type sinceSeq max events).Exact type sinceSeq := by
  intro h
  exact readSession_overrun (n := 2 ^ 64 - 1) (by norm_num) (h _ _ _ _ _ _)

end Overrun

-- As long as there are fewer than 2^64 calls, a reader gets every entry of its
-- type once and in order and is told when there are more. A prune keeps the
-- newest of the recent entries, and no number is given twice.
theorem journal_paging (history : List (ChangeEnv × JournalCall)) (user : Bytes) (type : ChangeType)
    (sinceSeq : UInt64) (max : Int) (events : List Event)
    (hcalls : history.length + events.length < 2 ^ 64) :
    (readSession history user type sinceSeq max events).Exact type sinceSeq ∧
    (∀ now journal, (Journal.prune now journal).rows.toList = journal.kept now ∧
      (journal.prune now).sequence = journal.sequence) ∧
    (issued user ∅ history).Pairwise (· < ·) := by
  have hhistory : history.length < 2 ^ 64 := by omega
  obtain ⟨hnumbered, hbound⟩ := runJournal_numbered hhistory
  obtain ⟨_, hsession⟩ := (Session.inv_start hnumbered hbound).run events hcalls
  refine ⟨hsession.exact, toList_prune, ?_⟩
  have hstart : (Changes.journal ∅ user).sequence.toNat ≤ 0 := by simp [Changes.journal, Journal.empty]
  exact (issued_increasing hstart (by omega)).1

def prunedHistory : List (ChangeEnv × JournalCall) :=
  [(⟨0, false⟩, .record (bytes "u") ⟨.email, .created, bytes "a", []⟩),
    (⟨0, false⟩, .record (bytes "u") ⟨.mailbox, .created, bytes "m", []⟩), (⟨1, false⟩, .prune (bytes "u")),
    (⟨1, false⟩, .record (bytes "u") ⟨.email, .created, bytes "b", []⟩)]

-- The third Email is written while the first page has been read.
def threePages : List Event :=
  [.call, .record ⟨2, false⟩ (bytes "u") ⟨.email, .created, bytes "c", []⟩, .call,
    .record ⟨2, false⟩ (bytes "u") ⟨.mailbox, .destroyed, bytes "m", []⟩, .call]

theorem journal_paging_pages : prunedHistory.length + threePages.length < 2 ^ 64 ∧
    (readSession prunedHistory (bytes "u") .email 0 1 threePages).received.map ChangeEntry.id =
      [bytes "a", bytes "b", bytes "c"] ∧
    (readSession prunedHistory (bytes "u") .email 0 1 threePages).Exact .email 0 :=
  ⟨by decide, by decide, (journal_paging prunedHistory (bytes "u") .email 0 1 threePages (by decide)).1⟩

end UMail.Storage
