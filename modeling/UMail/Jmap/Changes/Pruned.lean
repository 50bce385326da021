import UMail.Jmap.Changes
import UMail.Storage.Changes.Theorems

namespace UMail.Jmap

open UMail.Storage
open Fallible (ok_of_bind)
open Std (ExtTreeMap)

section Model

-- The journals, and every entry that was ever recorded for one user.
structure Logged where
  changes : Changes
  log : List ChangeEntry

def Logged.start : Logged := ⟨∅, []⟩

def Logged.step (user : Bytes) (s : Logged) (call : ChangeEnv × JournalCall) : Logged where
  changes := call.2.apply call.1 s.changes
  log := match call.2 with
    | .record writer change =>
      if writer = user ∧ ¬ (user = [] ∨ call.1.fault)
        then s.log ++ [(s.changes.journal user).entryFor call.1.now change] else s.log
    | _ => s.log

def logged (user : Bytes) (history : List (ChangeEnv × JournalCall)) : Logged :=
  history.foldl (Logged.step user) .start

def Wanted (type : ChangeType) (since : UInt64) (e : ChangeEntry) : Prop :=
  e.type = type ∧ since < e.seq

def liveEntries (now : Int) (journal : Journal) : List ChangeEntry :=
  journal.entries.filter fun e => !expired (now - changesRetention) (some e)

-- The entries a client still has to be told of are young enough for a prune,
-- and few enough are younger; and their rows stay readable.
def Spares (user : Bytes) (type : ChangeType) (since : UInt64) (changes : Changes) :
    ChangeEnv × JournalCall → Prop
  | (_, .record _ _) => True
  | (env, .prune owner) => owner = user → ¬ (user = [] ∨ env.fault) →
      ∀ e ∈ (changes.journal user).entries, Wanted type since e →
        env.now - changesRetention ≤ e.time ∧
        (Paging.after ChangeEntry.seq e.seq (liveEntries env.now (changes.journal user))).length <
          changesMaxEntriesPerUser
  | (_, .damage owner seq) => owner = user →
      ∀ e ∈ (changes.journal user).entries, Wanted type since e → e.seq ≠ seq

def Spared (user : Bytes) (type : ChangeType) (since : UInt64) :
    Logged → List (ChangeEnv × JournalCall) → Prop
  | _, [] => True
  | s, call :: calls =>
    Spares user type since s.changes call ∧ Spared user type since (s.step user call) calls

-- A page has every entry recorded between its two states, and tells whether
-- one was recorded later.
structure Complete (log : List ChangeEntry) (type : ChangeType) (since : UInt64) (page : Page) :
    Prop where
  entries : page.entries = Paging.upTo ChangeEntry.seq since page.lastSeq (log.filter (isType type))
  hasMore : page.hasMore = true ↔ ∃ e ∈ log, Wanted type page.lastSeq e

def ChangesResponse.window (log : List ChangeEntry) (type : ChangeType) (response : ChangesResponse) :
    List ChangeEntry :=
  Paging.upTo ChangeEntry.seq (parseChangeState response.oldState) (parseChangeState response.newState)
    (log.filter (isType type))

structure ChangesResponse.Complete (log : List ChangeEntry) (type : ChangeType)
    (response : ChangesResponse) : Prop where
  created : response.created = listedAs .created (foldEntries (response.window log type))
  updated : response.updated = listedAs .updated (foldEntries (response.window log type))
  destroyed : response.destroyed = listedAs .destroyed (foldEntries (response.window log type))
  hasMore : response.hasMoreChanges = true ↔
    ∃ e ∈ log, Wanted type (parseChangeState response.newState) e

end Model

section States

theorem formatState_ne_nil (seq : UInt64) : formatState seq ≠ [] := Imap.formatLoop_ne_nil (.inl (by decide))

theorem parseChangeState_formatState (seq : UInt64) : parseChangeState (formatState seq) = seq := by
  have hdigits : Imap.parseDigits 0 (formatState seq) = some seq.toNat :=
    Imap.parseDigits_formatLoop 20 seq.toNat [] (Nat.lt_trans seq.toNat_lt (by decide))
  unfold parseChangeState
  rw [if_neg (formatState_ne_nil seq), hdigits, Option.filter_some,
    if_pos (decide_eq_true seq.toNat_lt)]
  exact UInt64.ofNat_toNat

end States

section Prunes

variable {user : Bytes} {journal : Journal} {e : ChangeEntry}

theorem filterMap_drop {rows : List (UInt64 × Option ChangeEntry)} (h : ∀ row ∈ rows, row.2.isSome)
    (n : Nat) : (rows.drop n).filterMap Prod.snd = (rows.filterMap Prod.snd).drop n := by
  induction rows generalizing n with
  | nil => simp
  | cons row rows ih =>
    have ih := ih fun other hother => h other (List.mem_cons_of_mem row hother)
    obtain ⟨e, he⟩ := Option.isSome_iff_exists.mp (h row List.mem_cons_self)
    cases n with
    | zero => rfl
    | succ n => rw [List.drop_succ_cons, List.filterMap_cons_some he, List.drop_succ_cons, ih]

theorem filterMap_live (cutoff : Int) (rows : List (UInt64 × Option ChangeEntry)) :
    (rows.filter fun row => !expired cutoff row.2).filterMap Prod.snd =
      (rows.filterMap Prod.snd).filter fun e => !expired cutoff (some e) := by
  induction rows with
  | nil => rfl
  | cons row rows ih =>
    obtain ⟨key, entry⟩ := row
    rcases entry with _ | e
    · simpa [expired] using ih
    by_cases hlive : expired cutoff (some e) = true
    · simpa [hlive] using ih
    · simpa [hlive] using ih

theorem entries_prune (now : Int) (journal : Journal) :
    (journal.prune now).entries = (liveEntries now journal).drop
      ((liveEntries now journal).length - changesMaxEntriesPerUser) := by
  have hsome : ∀ row ∈ journal.rows.toList.filter fun row => !expired (now - changesRetention) row.2,
      row.2.isSome := by
    rintro ⟨key, entry⟩ hrow
    cases entry with
    | none => simp [expired] at hrow
    | some e => rfl
  have hlive := filterMap_live (now - changesRetention) journal.rows.toList
  have hlength : (journal.rows.toList.filter fun row => !expired (now - changesRetention) row.2).length =
      (liveEntries now journal).length := by
    rw [liveEntries, Journal.entries, ← hlive]
    exact (List.filterMap_length_eq_length.mpr hsome).symm
  unfold Journal.entries
  rw [(toList_prune now journal).1, Journal.kept]
  simp only [hlength]
  rw [filterMap_drop hsome, hlive]
  rfl

theorem mem_entries_prune (h : journal.Numbered) {now : Int} :
    e ∈ (journal.prune now).entries ↔ e ∈ journal.entries ∧ now - changesRetention ≤ e.time ∧
      (Paging.after ChangeEntry.seq e.seq (liveEntries now journal)).length <
        changesMaxEntriesPerUser := by
  have hsorted : (liveEntries now journal).Pairwise fun a b => a.seq < b.seq :=
    h.entries_sorted.filter _
  rw [entries_prune, Paging.mem_drop_length_sub hsorted]
  simp [liveEntries, expired, and_assoc]

theorem mem_entries_damage {seq : UInt64} (h : journal.Numbered) :
    e ∈ (journal.damage seq).entries ↔ e ∈ journal.entries ∧ e.seq ≠ seq := by
  have hmem : ∀ (other : Journal), e ∈ other.entries ↔ ∃ key : UInt64, other.rows[key]? = some (some e) := by
    simp [Journal.entries]
  rw [hmem, hmem]
  have hseq : ∀ key : UInt64, journal.rows[key]? = some (some e) → e.seq = key :=
    fun key hrow => (h key _ hrow).2 e rfl
  unfold Journal.damage
  split_ifs with hrow
  · simp only [ExtTreeMap.getElem?_insert, Std.compare_eq_iff_eq]
    constructor
    · rintro ⟨key, hkey⟩
      split_ifs at hkey with hne
      · cases hkey
      · exact ⟨⟨key, hkey⟩, fun heq => hne (heq.symm.trans (hseq key hkey))⟩
    · rintro ⟨⟨key, hkey⟩, hne⟩
      exact ⟨key, by rw [if_neg fun heq => hne ((hseq key hkey).trans heq.symm), hkey]⟩
  · refine (and_iff_left_of_imp ?_).symm
    rintro ⟨key, hkey⟩ rfl
    rw [hseq key hkey] at hrow
    exact hrow (ExtTreeMap.mem_iff_isSome_getElem?.mpr (by rw [hkey]; rfl))

end Prunes

section Runs

variable {user : Bytes} {n : Nat}

structure Logged.Inv (user : Bytes) (n : Nat) (s : Logged) : Prop where
  numbered : (s.changes.journal user).Numbered
  bound : (s.changes.journal user).sequence.toNat ≤ n
  sorted : s.log.Pairwise fun a b => a.seq < b.seq
  le : ∀ e ∈ s.log, e.seq ≤ (s.changes.journal user).sequence
  subset : ∀ e ∈ (s.changes.journal user).entries, e ∈ s.log

def Logged.Holds (user : Bytes) (type : ChangeType) (since : UInt64) (s : Logged) : Prop :=
  ∀ e ∈ s.log, Wanted type since e → e ∈ (s.changes.journal user).entries

theorem Logged.inv_start (user : Bytes) : Logged.start.Inv user 0 := by
  have hjournal : Logged.start.changes.journal user = .empty := by simp [Logged.start, Changes.journal]
  refine ⟨?_, ?_, .nil, fun e he => absurd he List.not_mem_nil, fun e he => ?_⟩
  · rw [hjournal]
    exact numbered_empty
  · rw [hjournal]
    exact Nat.le_refl 0
  · rw [hjournal] at he
    cases he

-- A call records an entry, or it keeps some of those that are there.
theorem Logged.step_cases (s : Logged) (h : (s.changes.journal user).Numbered)
    (call : ChangeEnv × JournalCall) (type : ChangeType) (since : UInt64) :
    (∃ change, (s.step user call).changes.journal user = (s.changes.journal user).record call.1.now change ∧
      (s.step user call).log = s.log ++ [(s.changes.journal user).entryFor call.1.now change] ∧
      Spares user type since s.changes call) ∨
    (s.step user call).log = s.log ∧
      ((s.step user call).changes.journal user).sequence = (s.changes.journal user).sequence ∧
      ∃ kept : ChangeEntry → Prop,
        (∀ e, e ∈ ((s.step user call).changes.journal user).entries ↔
          e ∈ (s.changes.journal user).entries ∧ kept e) ∧
        (Spares user type since s.changes call ↔
          ∀ e ∈ (s.changes.journal user).entries, Wanted type since e → kept e) := by
  obtain ⟨env, call⟩ := call
  cases call with
  | record writer change =>
    have hjournal := journal_recordChange env s.changes writer change user
    by_cases hwrites : writer = user ∧ ¬ (user = [] ∨ env.fault)
    · rw [if_pos hwrites] at hjournal
      exact .inl ⟨change, hjournal, if_pos hwrites, trivial⟩
    · rw [if_neg hwrites] at hjournal
      refine .inr ⟨if_neg hwrites, congrArg _ hjournal, fun _ => True, fun e => ?_, by simp [Spares]⟩
      rw [and_true]
      exact iff_of_eq (congrArg (e ∈ Journal.entries ·) hjournal)
  | prune owner =>
    refine .inr ⟨rfl, (thinned_apply (fun _ _ h => by cases h)).sequence,
      fun e => owner = user ∧ ¬ (user = [] ∨ env.fault) → env.now - changesRetention ≤ e.time ∧
        (Paging.after ChangeEntry.seq e.seq (liveEntries env.now (s.changes.journal user))).length <
          changesMaxEntriesPerUser, fun e => ?_,
      fun h e he hwanted hruns => h hruns.1 hruns.2 e he hwanted,
      fun h howner hruns e he hwanted => h e he hwanted ⟨howner, hruns⟩⟩
    simp only [Logged.step, JournalCall.apply, journal_pruneChanges]
    split_ifs with hruns
    · simp [mem_entries_prune h, hruns]
    · exact (and_iff_left fun hown => absurd hown hruns).symm
  | damage owner seq =>
    refine .inr ⟨rfl, (thinned_apply (fun _ _ h => by cases h)).sequence,
      fun e => owner = user → e.seq ≠ seq, fun e => ?_,
      fun h e he hwanted howner => h howner e he hwanted,
      fun h howner e he hwanted => h e he hwanted howner⟩
    simp only [Logged.step, journal_damage]
    split_ifs with howner
    · simp [mem_entries_damage h, howner]
    · simp [howner]

-- One call keeps the invariant, and what it takes away is seen from its
-- condition.
theorem Logged.Inv.step {s : Logged} (h : s.Inv user n) (hn : n + 1 < 2 ^ 64)
    (call : ChangeEnv × JournalCall) (type : ChangeType) (since : UInt64) :
    (s.step user call).Inv user (n + 1) ∧
      ((s.step user call).Holds user type since ↔
        s.Holds user type since ∧ Spares user type since s.changes call) := by
  obtain ⟨hnumbered, hbound⟩ := journal_apply_numbered h.numbered h.bound hn
  rcases s.step_cases h.numbered call type since with
    ⟨change, hjournal, hlog, hspares⟩ | ⟨hlog, hsequence, kept, hkept, hspares⟩
  · have hlt := lt_entryFor h.bound hn call.1.now change
    have hentries := h.numbered.entries_record h.bound hn call.1.now change
    have hnew : ∀ e ∈ s.log, e.seq < ((s.changes.journal user).entryFor call.1.now change).seq :=
      fun e he => Std.lt_of_le_of_lt (h.le e he) hlt
    refine ⟨⟨hnumbered, hbound, ?_, ?_, ?_⟩, ?_⟩
    · rw [hlog, List.pairwise_append]
      refine ⟨h.sorted, List.pairwise_singleton _ _, fun e he other hother => ?_⟩
      obtain rfl := List.mem_singleton.mp hother
      exact hnew e he
    · rw [hlog, hjournal, List.forall_mem_append, List.forall_mem_singleton]
      exact ⟨fun e he => Std.le_of_lt (hnew e he), Std.le_refl _⟩
    · rw [hlog, hjournal, hentries]
      intro e he
      rcases List.mem_append.mp he with he | he
      · exact List.mem_append_left _ (h.subset e he)
      · exact List.mem_append_right _ he
    · unfold Logged.Holds
      rw [hlog, hjournal, hentries]
      refine ⟨fun hholds => ⟨fun e he hwanted => ?_, hspares⟩, fun hholds e he hwanted => ?_⟩
      · rcases List.mem_append.mp (hholds e (List.mem_append_left _ he) hwanted) with hmem | hmem
        · exact hmem
        · obtain rfl := List.mem_singleton.mp hmem
          exact absurd (hnew _ he) Std.lt_irrefl
      · rcases List.mem_append.mp he with he | he
        · exact List.mem_append_left _ (hholds.1 e he hwanted)
        · exact List.mem_append_right _ he
  · refine ⟨⟨hnumbered, hbound, ?_, ?_, fun e he => ?_⟩, ?_⟩
    · rw [hlog]
      exact h.sorted
    · rw [hlog, hsequence]
      exact h.le
    · rw [hlog]
      exact h.subset e ((hkept e).mp he).1
    · unfold Logged.Holds
      simp only [hlog, hkept, hspares]
      constructor
      · intro hholds
        exact ⟨fun e he hwanted => (hholds e he hwanted).1,
          fun e he hwanted => (hholds e (h.subset e he) hwanted).2⟩
      · rintro ⟨hholds, hstays⟩ e he hwanted
        exact ⟨hholds e he hwanted, hstays e (hholds e he hwanted) hwanted⟩

theorem Logged.Inv.run (calls : List (ChangeEnv × JournalCall)) {s : Logged} (h : s.Inv user n)
    (hn : n + calls.length < 2 ^ 64) (type : ChangeType) (since : UInt64) :
    (calls.foldl (Logged.step user) s).Inv user (n + calls.length) ∧
      ((calls.foldl (Logged.step user) s).Holds user type since ↔
        s.Holds user type since ∧ Spared user type since s calls) := by
  induction calls generalizing s n with
  | nil => exact ⟨h, (and_iff_left trivial).symm⟩
  | cons call calls ih =>
    rw [List.length_cons] at hn ⊢
    obtain ⟨hstep, hholds⟩ := h.step (by omega) call type since
    obtain ⟨hinv, hrun⟩ := ih hstep (by omega)
    refine ⟨?_, ?_⟩
    · rw [show n + (calls.length + 1) = n + 1 + calls.length by omega]
      exact hinv
    · rw [List.foldl_cons, hrun, hholds, Spared, and_assoc]

end Runs

section Answers

variable {user : Bytes} {type : ChangeType} {since : UInt64} {n : Nat} {s : Logged}
  {e : ChangeEntry} {changes : Changes}

theorem isType_iff : isType type e = true ↔ e.type = type := by
  exact decide_eq_true_iff

theorem Logged.Inv.complete (h : s.Inv user n) (hholds : s.Holds user type since) (max : Int) :
    Complete s.log type since (s.changes.getChangesSince user type since max) := by
  have hlog : (s.log.filter (isType type)).Pairwise fun a b => a.seq < b.seq := h.sorted.filter _
  have hjournal : ((s.changes.journal user).entries.filter (isType type)).Pairwise
      fun a b => a.seq < b.seq := h.numbered.entries_sorted.filter _
  have hafter : Paging.after ChangeEntry.seq since
      ((s.changes.journal user).entries.filter (isType type)) =
        Paging.after ChangeEntry.seq since (s.log.filter (isType type)) := by
    refine Paging.after_congr hjournal hlog fun e hlt => ?_
    rw [List.mem_filter, List.mem_filter, isType_iff]
    exact and_congr_left fun htype => ⟨h.subset e, fun he => hholds e he ⟨htype, hlt⟩⟩
  have hpage : s.changes.getChangesSince user type since max =
      ⟨Paging.page ChangeEntry.seq (pageSize max) since (s.log.filter (isType type)),
        decide (pageSize max < (Paging.after ChangeEntry.seq since (s.log.filter (isType type))).length),
        Paging.next ChangeEntry.seq (pageSize max) since (s.log.filter (isType type))⟩ := by
    rw [getChangesSince_eq h.numbered]
    simp only [Paging.page, Paging.next, hafter]
  rw [hpage]
  refine ⟨Paging.page_eq_upTo hlog, ?_⟩
  simp only [decide_eq_true_eq, Paging.size_lt_length_after hlog, List.mem_filter, isType_iff, and_assoc,
    Wanted]

theorem pageSize_pos (max : Int) : 0 < pageSize max := by
  unfold pageSize
  split_ifs with h
  · decide
  · omega

-- A page that starts right before an entry has it, if it is complete.
theorem Logged.Inv.mem_of_complete (h : s.Inv user n) (he : e ∈ s.log) (htype : e.type = type)
    (hnext : e.seq.toNat = since.toNat + 1) {max : Int}
    (hcomplete : Complete s.log type since (s.changes.getChangesSince user type since max)) :
    e ∈ (s.changes.journal user).entries := by
  rw [getChangesSince_eq h.numbered] at hcomplete
  obtain ⟨hentries, hmore⟩ := hcomplete
  simp only at hentries hmore
  generalize hread : (s.changes.journal user).entries.filter (isType type) = read at hentries hmore
  by_cases hpassed : Paging.next ChangeEntry.seq (pageSize max) since read < e.seq
  · -- Then there is more to read, but the page has not gone beyond its start.
    have hlength : pageSize max < (Paging.after ChangeEntry.seq since read).length :=
      decide_eq_true_eq.mp (hmore.mpr ⟨e, he, htype, hpassed⟩)
    have hpage : Paging.page ChangeEntry.seq (pageSize max) since read ≠ [] := by
      rw [Paging.page, Ne, ← List.length_eq_zero_iff, List.length_take]
      have hpos := pageSize_pos max
      omega
    have hlast := List.getLast?_eq_some_getLast hpage
    have hmem := List.mem_of_mem_take (List.getLast_mem hpage)
    have hlt := (Paging.mem_after.mp hmem).2
    rw [Paging.next, hlast, Option.map_some, Option.getD_some] at hpassed
    rw [UInt64.lt_iff_toNat_lt] at hlt hpassed
    omega
  · have hmem : e ∈ Paging.page ChangeEntry.seq (pageSize max) since read := by
      rw [hentries]
      refine Paging.mem_upTo.mpr ⟨List.mem_filter.mpr ⟨he, isType_iff.mpr htype⟩, ?_, hpassed⟩
      rw [UInt64.lt_iff_toNat_lt]
      omega
    have hin := (Paging.mem_after.mp (List.mem_of_mem_take hmem)).1
    rw [← hread] at hin
    exact List.mem_of_mem_filter hin

def ChangesArgs.token (args : ChangesArgs) : UInt64 :=
  parseChangeState ((Value.asString args.sinceState).getD [])

theorem readChanges_ok {args : ChangesArgs} {page : Page}
    (h : readChanges changes user type args = .ok page) :
    ∃ max, page = changes.getChangesSince user type args.token max := by
  obtain ⟨_, -, h⟩ := ok_of_bind h
  unfold ChangesArgs.token
  rcases hsince : Value.asString args.sinceState with _ | sinceState
  · simp [hsince] at h
  rw [hsince] at h
  obtain ⟨max, -, h⟩ := ok_of_bind h
  dsimp only at h
  split_ifs at h
  exact ⟨max, (Except.ok.inj h).symm⟩

theorem readChanges_formatState (hsince : since ≤ (changes.journal user).sequence) :
    readChanges changes user type ⟨none, some (.string (formatState since)), none⟩ =
      .ok (changes.getChangesSince user type since 256) := by
  have hold : ¬ since > (changes.journal user).sequence := Std.not_lt.mpr hsince
  unfold readChanges
  simp [Value.asString, Value.asNumber, validateAccountId, maxChangesOf, currentChangeState,
    parseChangeState_formatState, hold, bind, Except.bind]

end Answers

section Aged

def prunedAfter (days : Int) : List (ChangeEnv × JournalCall) :=
  [(⟨0, false⟩, .record (bytes "u") ⟨.email, .created, bytes "a", bytes "INBOX"⟩),
    (⟨days * 24 * 3600 * 1000000000, false⟩, .prune (bytes "u"))]

def fromFirstState : ChangesArgs := ⟨none, some (.string (bytes "0")), none⟩

-- A client that has the first state is told that nothing has changed.
theorem changes_complete_fails_pruned : currentChangeState ∅ (bytes "u") = bytes "0" ∧
    ∃ response, handleChanges (logged (bytes "u") (prunedAfter 31)).changes (bytes "u") .email false
        fromFirstState = .ok response ∧
      ¬ response.Complete (logged (bytes "u") (prunedAfter 31)).log .email := by
  refine ⟨by decide, ⟨[], bytes "0", bytes "0", false, [], [], [], false⟩, by decide, fun h => ?_⟩
  have hlog : (logged (bytes "u") (prunedAfter 31)).log =
      [⟨1, .email, .created, bytes "a", bytes "INBOX", 0⟩] := by decide
  have hmore := h.hasMore.mpr ⟨_, by rw [hlog]; exact List.mem_singleton_self _, rfl, by decide⟩
  cases hmore

end Aged

-- Every page from a state on is complete exactly if no prune has removed an
-- entry that was recorded after it; and then so is every answer.
theorem changes_complete_iff (history : List (ChangeEnv × JournalCall)) (user : Bytes)
    (type : ChangeType) (since : UInt64) (hcalls : history.length < 2 ^ 64) :
    ((∀ args page, since ≤ args.token →
      readChanges (logged user history).changes user type args = .ok page →
        Complete (logged user history).log type args.token page) ↔
      Spared user type since .start history) ∧
    (Spared user type since .start history → ∀ props args response, since ≤ args.token →
      handleChanges (logged user history).changes user type props args = .ok response →
        response.Complete (logged user history).log type) := by
  obtain ⟨hinv, hrun⟩ := (Logged.inv_start user).run history (by omega) type since
  rw [← logged] at hinv
  have hstart : Logged.start.Holds user type since := fun e he => absurd he List.not_mem_nil
  have hspared : (logged user history).Holds user type since ↔ Spared user type since .start history :=
    hrun.trans (and_iff_right hstart)
  have hpages : (logged user history).Holds user type since → ∀ args page, since ≤ args.token →
      readChanges (logged user history).changes user type args = .ok page →
        Complete (logged user history).log type args.token page := by
    intro hholds args page hle hpage
    obtain ⟨max, rfl⟩ := readChanges_ok hpage
    exact hinv.complete (fun e he hwanted =>
      hholds e he ⟨hwanted.1, Std.lt_of_le_of_lt hle hwanted.2⟩) max
  refine ⟨⟨fun h => hspared.mp fun e he hwanted => ?_, fun h => hpages (hspared.mpr h)⟩, ?_⟩
  · obtain ⟨htype, hlt⟩ := hwanted
    rw [UInt64.lt_iff_toNat_lt] at hlt
    have hbefore : (e.seq - 1).toNat = e.seq.toNat - 1 := UInt64.toNat_sub_of_le _ _ (by
      rw [UInt64.le_iff_toNat_le, UInt64.toNat_one]
      omega)
    have hle : e.seq - 1 ≤ ((logged user history).changes.journal user).sequence := by
      have := UInt64.le_iff_toNat_le.mp (hinv.le e he)
      rw [UInt64.le_iff_toNat_le]
      omega
    have htoken : ChangesArgs.token ⟨none, some (.string (formatState (e.seq - 1))), none⟩ = e.seq - 1 :=
      parseChangeState_formatState _
    have hcomplete := h _ _ (by rw [htoken, UInt64.le_iff_toNat_le]; omega) (readChanges_formatState hle)
    rw [htoken] at hcomplete
    exact hinv.mem_of_complete he htype (by omega) hcomplete
  · intro h props args response hle hresponse
    obtain ⟨page, hpage, hresponse⟩ := ok_of_bind hresponse
    obtain ⟨hentries, hmore⟩ := hpages (hspared.mpr h) args page hle hpage
    cases hresponse
    have hnew := parseChangeState_formatState page.lastSeq
    have hwindow : Paging.upTo ChangeEntry.seq args.token (parseChangeState (formatState page.lastSeq))
        ((logged user history).log.filter (isType type)) = page.entries := by
      rw [hnew]
      exact hentries.symm
    refine ⟨congrArg (fun entries => listedAs .created (foldEntries entries)) hwindow.symm,
      congrArg (fun entries => listedAs .updated (foldEntries entries)) hwindow.symm,
      congrArg (fun entries => listedAs .destroyed (foldEntries entries)) hwindow.symm, ?_⟩
    rw [hnew]
    exact hmore

theorem changes_complete_next_day : (prunedAfter 1).length < 2 ^ 64 ∧
    ∃ response, handleChanges (logged (bytes "u") (prunedAfter 1)).changes (bytes "u") .email false
        fromFirstState = .ok response ∧
      response.Complete (logged (bytes "u") (prunedAfter 1)).log .email := by
  have hspared : Spared (bytes "u") .email 0 .start (prunedAfter 1) := by
    refine ⟨trivial, fun _ _ e he _ => ?_, trivial⟩
    have hentries : ((Logged.start.step (bytes "u") (⟨0, false⟩, .record (bytes "u")
        ⟨.email, .created, bytes "a", bytes "INBOX"⟩)).changes.journal (bytes "u")).entries =
        [⟨1, .email, .created, bytes "a", bytes "INBOX", 0⟩] := by decide
    obtain rfl := List.mem_singleton.mp he
    decide
  refine ⟨by decide, ⟨[], bytes "0", bytes "1", false, [bytes "a"], [], [], false⟩, by decide, ?_⟩
  exact (changes_complete_iff (prunedAfter 1) (bytes "u") .email 0 (by decide)).2 hspared false
    fromFirstState _ (by decide) (by decide)

end UMail.Jmap
