import UMail.Queue.Phases

namespace UMail.Queue

open Concurrency UMail.Storage UMail.Db

section Effects

variable {setup : Setup} {thread : Nat} {choice : Choice} {s s' : State} {c : Call}

def Call.writesSpool : Call → Bool
  | .writeSpool _ _ | .deleteFile _ | .removeMessage _ => true
  | _ => false

def Call.writesRows : Call → Bool
  | .enqueueWithLimit _ _ | .updateQueueEntry _ _ | .claimQueueEntry _ _ | .requeueStaleClaims _
  | .dequeue _ => true
  | _ => false

structure Frame (c : Call) (s s' : State) : Prop where
  rows : c.writesRows = false → s'.rows = s.rows
  spool : c.writesSpool = false → s'.spool = s.spool
  nextBase : c ≠ .generateID → s'.nextBase = s.nextBase

theorem exec_frame {result : c.Result} (h : exec setup thread choice s c = some (result, s')) :
    Frame c s s' := by
  cases c
  case lock | unlock | readSettings | jitter | send | acquireDomainSlot =>
    simp only [exec] at h
    split_ifs at h <;> cases h <;> exact ⟨fun _ => rfl, fun _ => rfl, fun _ => rfl⟩
  case receive | fireTimer =>
    simp only [exec] at h
    split at h <;> cases h
    exact ⟨fun _ => rfl, fun _ => rfl, fun _ => rfl⟩
  case writeSpool =>
    simp only [exec] at h
    split_ifs at h <;> cases h <;> exact ⟨fun _ => rfl, fun hw => (by cases hw), fun _ => rfl⟩
  case deleteFile | removeMessage =>
    cases h
    unfold State.deleteSpool
    split_ifs <;> exact ⟨fun _ => rfl, fun hw => (by cases hw), fun _ => rfl⟩
  case writeMarker | deleteMarker =>
    cases h
    split_ifs <;> exact ⟨fun _ => rfl, fun _ => rfl, fun _ => rfl⟩
  case generateID =>
    cases h
    exact ⟨fun _ => rfl, fun _ => rfl, fun hne => absurd rfl hne⟩
  case enqueueWithLimit | updateQueueEntry | claimQueueEntry | requeueStaleClaims | dequeue =>
    cases h
    exact ⟨fun hw => (by cases hw), fun _ => rfl, fun _ => rfl⟩
  case halt => cases h
  all_goals
    cases h
    exact ⟨fun _ => rfl, fun _ => rfl, fun _ => rfl⟩

inductive Origin (lease : Int) (rows : QueueRows) (id : EntryID) :
    (c : Call) → c.Result → QueueEntry → Prop
  | kept {c : Call} {result : c.Result} {entry : QueueEntry} (h : rows[id]? = some entry) :
      Origin lease rows id c result entry
  | stored {entry : QueueEntry} : Origin lease rows id (.enqueueWithLimit id entry) (.ok ()) entry
  | updated {old entry : QueueEntry} (h : rows[id]? = some old) :
      Origin lease rows id (.updateQueueEntry id entry) (.ok ()) entry
  | claimed {old : QueueEntry} {now : Int} (h : rows[id]? = some old) (hp : old.status = .pending) :
      Origin lease rows id (.claimQueueEntry id now)
        (.ok { old with status := .sending, claimedAt := some now })
        { old with status := .sending, claimedAt := some now }
  | requeued {old : QueueEntry} {now : Int} {result : Except QueueError Nat}
      (h : rows[id]? = some old) (hs : staleClaim now lease old = true) :
      Origin lease rows id (.requeueStaleClaims now) result
        { old with status := .pending, nextRetry := now, claimedAt := none }

variable {id : EntryID} {entry : QueueEntry} {result : Except QueueError Unit}

theorem exec_enqueueWithLimit
    (h : exec setup thread choice s (.enqueueWithLimit id entry) = some (result, s')) :
    (∃ err, result = .error err ∧ s'.rows = s.rows) ∨
      (result = .ok () ∧ s'.rows = s.rows.insert id entry) := by
  simp only [exec, enqueueWithLimit] at h
  split_ifs at h <;> cases h
  · exact .inl ⟨_, rfl, rfl⟩
  · exact .inl ⟨_, rfl, rfl⟩
  · exact .inr ⟨rfl, rfl⟩

theorem exec_updateQueueEntry
    (h : exec setup thread choice s (.updateQueueEntry id entry) = some (result, s')) :
    (∃ err, result = .error err ∧ s'.rows = s.rows) ∨
      (result = .ok () ∧ (∃ old, s.rows[id]? = some old) ∧ s'.rows = s.rows.insert id entry) := by
  simp only [exec, updateQueueEntry] at h
  split_ifs at h
  · cases h
    exact .inl ⟨_, rfl, rfl⟩
  split at h <;> cases h
  · exact .inl ⟨_, rfl, rfl⟩
  · rename_i old hold
    exact .inr ⟨rfl, ⟨old, hold⟩, rfl⟩

theorem exec_claimQueueEntry {now : Int} {result : Except QueueError QueueEntry}
    (h : exec setup thread choice s (.claimQueueEntry id now) = some (result, s')) :
    (∃ err, result = .error err ∧ s'.rows = s.rows) ∨
      ∃ old, s.rows[id]? = some old ∧ old.status = .pending ∧
        result = .ok { old with status := .sending, claimedAt := some now } ∧
        s'.rows = s.rows.insert id { old with status := .sending, claimedAt := some now } := by
  simp only [exec, claimQueueEntry] at h
  split_ifs at h
  · cases h
    exact .inl ⟨_, rfl, rfl⟩
  split at h
  · cases h
    exact .inl ⟨_, rfl, rfl⟩
  rename_i old hold
  split_ifs at h with hclaimable
  · cases h
    exact .inl ⟨_, rfl, rfl⟩
  · cases h
    push Not at hclaimable
    exact .inr ⟨old, hold, hclaimable.1, rfl, rfl⟩

theorem exec_dequeue (h : exec setup thread choice s (.dequeue id) = some (result, s')) :
    (choice.fault = true ∧ s'.rows = s.rows) ∨ s'.rows = s.rows.erase id := by
  simp only [exec, dequeue] at h
  split_ifs at h with hfault <;> cases h
  · exact .inl ⟨hfault, rfl⟩
  · exact .inr rfl

theorem exec_origin {result : c.Result} (h : exec setup thread choice s c = some (result, s'))
    (hrow : s'.rows[id]? = some entry) : Origin setup.claimLease s.rows id c result entry := by
  cases c
  case enqueueWithLimit id' entry' =>
    rcases exec_enqueueWithLimit h with ⟨err, rfl, hrows⟩ | ⟨rfl, hrows⟩
    · exact .kept (hrows ▸ hrow)
    rw [hrows, getElem?_insert] at hrow
    split_ifs at hrow with he
    · cases he
      cases hrow
      exact .stored
    · exact .kept hrow
  case updateQueueEntry id' entry' =>
    rcases exec_updateQueueEntry h with ⟨err, rfl, hrows⟩ | ⟨rfl, ⟨old, hold⟩, hrows⟩
    · exact .kept (hrows ▸ hrow)
    rw [hrows, getElem?_insert] at hrow
    split_ifs at hrow with he
    · cases he
      cases hrow
      exact .updated hold
    · exact .kept hrow
  case claimQueueEntry id' now =>
    rcases exec_claimQueueEntry h with ⟨err, rfl, hrows⟩ | ⟨old, hold, hpending, rfl, hrows⟩
    · exact .kept (hrows ▸ hrow)
    rw [hrows, getElem?_insert] at hrow
    split_ifs at hrow with he
    · cases he
      cases hrow
      exact .claimed hold hpending
    · exact .kept hrow
  case requeueStaleClaims now =>
    simp only [exec, requeueStaleClaims] at h
    split_ifs at h <;> cases h
    · exact .kept hrow
    · rw [Std.ExtTreeMap.getElem?_map] at hrow
      obtain ⟨old, hold, rfl⟩ := Option.map_eq_some_iff.mp hrow
      unfold requeued
      split_ifs with hstale
      · exact .requeued hold hstale
      · exact .kept hold
  case dequeue id' =>
    rcases exec_dequeue h with ⟨_, hrows⟩ | hrows
    · exact .kept (hrows ▸ hrow)
    · rw [hrows, getElem?_erase] at hrow
      split_ifs at hrow
      exact .kept hrow
  all_goals exact .kept ((exec_frame h).rows rfl ▸ hrow)

end Effects

-- The message a thread is storing or taking back, and how many of its entries
-- it has stored.
def Phase.storing : Phase → Option (Nat × Nat)
  | .spooling base stored _ => some (base, stored)
  | .undoing base stored _ => some (base, stored)
  | .idle | .dropped _ | .scanning _ _ => none

-- How a call takes its thread from one phase to the next.
inductive Entered (before : Phase) : (c : Call) → c.Result → Phase → Prop
  | kept {c : Call} {result : c.Result} : Entered before c result before
  | idle {c : Call} {result : c.Result} : Entered before c result .idle
  | taken {base : Nat} : Entered before .generateID base (.spooling base 0 false)
  | written {base message result} :
      Entered before (.writeSpool base message) (.ok result) (.spooling base 0 true)
  | unwritten {base message e} : Entered before (.writeSpool base message) (.error e) (.dropped base)
  | stored {id entry result} :
      Entered before (.enqueueWithLimit id entry) (.ok result) (.spooling id.base (id.index + 1) true)
  | refused {id entry e} :
      Entered before (.enqueueWithLimit id entry) (.error e) (.undoing id.base id.index 0)
  | undone {id result base stored undone} (h : before = .undoing base stored undone) :
      Entered before (.dequeue id) result (.undoing base stored (undone + 1))
  | removed {base result} : Entered before (.deleteFile base) result (.dropped base)
  | scanned {base after result reach} (hon : after = none ∨ before = .scanning base after)
      (hresult : result = .ok (0, reach) ∨ ∃ err, result = .error err) :
      Entered before (.countRefs base after) result (.scanning base reach)

theorem entered_next (before : Phase) (thread : Nat) (c : Call) (result : c.Result) :
    Entered before c result (before.next ⟨thread, c, result⟩) := by
  cases c
  case generateID => exact .taken
  case writeSpool =>
    cases result
    · exact .unwritten
    · exact .written
  case enqueueWithLimit =>
    cases result
    · exact .refused
    · exact .stored
  case dequeue =>
    cases before with
    | undoing => exact .undone rfl
    | idle | spooling | dropped | scanning => exact .kept
  case deleteFile => exact .removed
  case send => exact .idle
  case countRefs base after =>
    change Entered before _ result (before.scanned base after result)
    unfold Phase.scanned
    split
    · split_ifs with hon
      · exact .scanned hon (.inl rfl)
      · exact .idle
    · exact .idle
    · split_ifs with hon
      · exact .scanned hon (.inr ⟨_, rfl⟩)
      · exact .idle
  all_goals exact .kept

def phaseOf (w : World sig State) (thread : Nat) : Phase := phase (ownLog thread w.log)

def Inserted (w : World sig State) (id : EntryID) : Prop :=
  id.base < w.state.nextBase ∧
    ∀ thread stored, (phaseOf w thread).storing = some (id.base, stored) → id.index < stored

def Closed (w : World sig State) (base : Nat) : Prop :=
  base < w.state.nextBase ∧ ∀ thread stored, (phaseOf w thread).storing ≠ some (base, stored)

def Unfinished (w : World sig State) (base : Nat) : Prop :=
  ∃ event ∈ w.log, (phaseOf w event.thread).storing.map Prod.fst = some base

instance (w : World sig State) (base : Nat) : Decidable (Unfinished w base) :=
  List.decidableBEx (fun event : Event sig => (phaseOf w event.thread).storing.map Prod.fst = some base) w.log

theorem storing_of_unfinished {w : World sig State} {base : Nat} (h : ¬ Unfinished w base)
    (thread stored : Nat) : (phaseOf w thread).storing ≠ some (base, stored) := by
  intro hstoring
  have hown : ownLog thread w.log ≠ [] := by
    intro hown
    unfold phaseOf at hstoring
    rw [hown] at hstoring
    cases hstoring
  obtain ⟨event, hlog, rfl⟩ := exists_event_of_ownLog hown
  exact h ⟨event, hlog, by rw [hstoring]; rfl⟩

structure Tidy (w : World sig State) : Prop where
  below : ∀ thread base stored, (phaseOf w thread).storing = some (base, stored) →
    base < w.state.nextBase
  alone : ∀ thread other base stored stored', (phaseOf w thread).storing = some (base, stored) →
    (phaseOf w other).storing = some (base, stored') → thread = other
  rows : ∀ id entry, w.state.rows[id]? = some entry → Inserted w id
  seen : ∀ thread base, base ∈ seen (ownLog thread w.log) → base < w.state.nextBase

-- A rollback has removed what it has gone past.
def UndoneBelow (w : World sig State) : Prop :=
  ∀ thread base stored undone, phaseOf w thread = .undoing base stored undone →
    ∀ index entry, w.state.rows[EntryID.mk base index]? = some entry → undone ≤ index

section Steps

variable {setup : Setup} {w w' : World sig State} {thread : Nat} {c : Call} {choice : Choice}
  {result : c.Result}
  (h : w.exec (machine setup) thread c choice = some (result, w')) {other base : Nat} {id : EntryID}
  {entry : QueueEntry}

include h

theorem phaseOf_exec : phaseOf w' thread = (phaseOf w thread).next ⟨thread, c, result⟩ := by
  unfold phaseOf
  rw [ownLog_exec h]
  rfl

theorem phaseOf_exec_other (hne : other ≠ thread) : phaseOf w' other = phaseOf w other := by
  unfold phaseOf
  rw [ownLog_exec_other h hne]

theorem phaseOf_entered (other : Nat) : phaseOf w' other = phaseOf w other ∨
    other = thread ∧ Entered (phaseOf w other) c result (phaseOf w' other) := by
  by_cases hother : other = thread
  · subst hother
    rw [phaseOf_exec h]
    exact .inr ⟨rfl, entered_next _ _ _ _⟩
  · exact .inl (phaseOf_exec_other h hother)

theorem exec_state : exec setup thread choice w.state c = some (result, w'.state) :=
  (World.exec_eq_some.mp h).1

omit h in
theorem exec_generateID {result : Nat}
    (h : w.exec (machine setup) thread .generateID choice = some (result, w')) :
    result = w.state.nextBase ∧ w'.state.nextBase = w.state.nextBase + 1 := by
  have hstate := exec_state h
  simp only [exec, Option.some.injEq, Prod.mk.injEq] at hstate
  exact ⟨hstate.1.symm, by rw [← hstate.2]⟩

theorem nextBase_le : w.state.nextBase ≤ w'.state.nextBase := by
  by_cases hc : c = .generateID
  · subst hc
    rw [(exec_generateID h).2]
    exact Nat.le_succ _
  · rw [(exec_frame (exec_state h)).nextBase hc]

theorem seen_exec (hseen : base ∈ seen (ownLog other w'.log)) :
    base ∈ seen (ownLog other w.log) ∨
      ∃ (id : EntryID) (entry : QueueEntry), id.base = base ∧ w.state.rows[id]? = some entry := by
  by_cases hother : other = thread
  · subst hother
    rw [ownLog_exec h] at hseen
    cases c
    case getQueueEntry id =>
      rcases result with err | entry
      · exact .inl hseen
      rcases List.mem_cons.mp hseen with rfl | hold
      · have hread := exec_state h
        simp only [exec, Option.some.injEq, Prod.mk.injEq, getQueueEntry] at hread
        obtain ⟨hread, _⟩ := hread
        split_ifs at hread
        split at hread <;> cases hread
        rename_i hrow
        exact .inr ⟨id, entry, rfl, hrow⟩
      · exact .inl hold
    case claimQueueEntry id now =>
      rcases result with err | entry
      · exact .inl hseen
      rcases List.mem_cons.mp hseen with rfl | hold
      · rcases exec_claimQueueEntry (exec_state h) with ⟨err, herr, _⟩ | ⟨old, hrow, _⟩
        · cases herr
        · exact .inr ⟨id, old, rfl, hrow⟩
      · exact .inl hold
    all_goals exact .inl hseen
  · rw [ownLog_exec_other h hother] at hseen
    exact .inl hseen

theorem old_or_stored (hrow : w'.state.rows[id]? = some entry) :
    (∃ old, w.state.rows[id]? = some old) ∨ c = .enqueueWithLimit id entry := by
  cases exec_origin (exec_state h) hrow with
  | stored => exact .inr rfl
  | kept hold | updated hold | claimed hold _ | requeued hold _ => exact .inl ⟨_, hold⟩

-- An entry that is stored was never stored before, and counts from then on.
omit h in
theorem inserted_of_stored (ht : Tidy w)
    (h : w.exec (machine setup) thread (.enqueueWithLimit id entry) choice = some (.ok (), w'))
    (hproper : Proper (ownLog thread w.log) (.enqueueWithLimit id entry)) :
    ¬ Inserted w id ∧ Inserted w' id := by
  have hphase : phaseOf w thread = .spooling id.base id.index true := hproper.1
  have hstoring : (phaseOf w thread).storing = some (id.base, id.index) := by rw [hphase]; rfl
  refine ⟨fun hid => Nat.lt_irrefl _ (hid.2 thread id.index hstoring), ?_⟩
  refine ⟨lt_of_lt_of_le (ht.below _ _ _ hstoring) (nextBase_le h), ?_⟩
  intro other stored hother
  by_cases he : other = thread
  · subst he
    rw [phaseOf_exec h] at hother
    cases hother
    exact Nat.lt_succ_self _
  · rw [phaseOf_exec_other h he] at hother
    exact absurd (ht.alone _ _ _ _ _ hother hstoring) he

variable (hproper : Proper (ownLog thread w.log) c)
include hproper

-- A thread that is storing a message has just taken its base, or was storing it
-- before.
theorem storing_exec {stored : Nat} (hstoring : (phaseOf w' other).storing = some (base, stored)) :
    (other = thread ∧ base = w.state.nextBase ∧ w'.state.nextBase = base + 1) ∨
      ∃ before ≤ stored, (phaseOf w other).storing = some (base, before) := by
  rcases phaseOf_entered h other with hsame | ⟨rfl, hentered⟩
  · exact .inr ⟨stored, Nat.le_refl _, hsame ▸ hstoring⟩
  generalize phaseOf w' other = after at hstoring hentered
  cases hentered with
  | kept => exact .inr ⟨stored, Nat.le_refl _, hstoring⟩
  | taken =>
    cases hstoring
    obtain ⟨hbase, hnext⟩ := exec_generateID h
    exact .inl ⟨rfl, hbase, hbase ▸ hnext⟩
  | written =>
    cases hstoring
    have hphase : phaseOf w other = .spooling base 0 false := hproper
    exact .inr ⟨0, Nat.le_refl 0, by rw [hphase]; rfl⟩
  | @stored id =>
    cases hstoring
    have hphase : phaseOf w other = .spooling id.base id.index true := hproper.1
    exact .inr ⟨id.index, Nat.le_succ _, by rw [hphase]; rfl⟩
  | @refused id =>
    cases hstoring
    have hphase : phaseOf w other = .spooling id.base id.index true := hproper.1
    exact .inr ⟨id.index, Nat.le_refl _, by rw [hphase]; rfl⟩
  | undone hbefore => exact .inr ⟨stored, Nat.le_refl _, by rw [hbefore, ← hstoring]; rfl⟩
  | idle | unwritten | removed | scanned => cases hstoring

theorem Inserted.exec (hid : Inserted w id) : Inserted w' id := by
  refine ⟨lt_of_lt_of_le hid.1 (nextBase_le h), ?_⟩
  intro other stored hstoring
  rcases storing_exec h hproper hstoring with ⟨_, hbase, _⟩ | ⟨before, hle, hbefore⟩
  · exact absurd hbase (Nat.ne_of_lt hid.1)
  · exact lt_of_lt_of_le (hid.2 other before hbefore) hle

theorem Closed.exec (hbase : Closed w base) : Closed w' base := by
  refine ⟨lt_of_lt_of_le hbase.1 (nextBase_le h), ?_⟩
  intro other stored hstoring
  rcases storing_exec h hproper hstoring with ⟨_, hnext, _⟩ | ⟨before, _, hbefore⟩
  · exact absurd hnext (Nat.ne_of_lt hbase.1)
  · exact hbase.2 other before hbefore

theorem Tidy.exec (ht : Tidy w) : Tidy w' where
  below other base stored hstoring := by
    rcases storing_exec h hproper hstoring with ⟨_, _, hnext⟩ | ⟨before, _, hbefore⟩
    · rw [hnext]
      exact Nat.lt_succ_self _
    · exact lt_of_lt_of_le (ht.below _ _ _ hbefore) (nextBase_le h)
  alone a b base stored stored' ha hb := by
    rcases storing_exec h hproper ha with ⟨hat, habase, _⟩ | ⟨k, _, hka⟩ <;>
      rcases storing_exec h hproper hb with ⟨hbt, hbbase, _⟩ | ⟨k', _, hkb⟩
    · rw [hat, hbt]
    · exact absurd habase (Nat.ne_of_lt (ht.below _ _ _ hkb))
    · exact absurd hbbase (Nat.ne_of_lt (ht.below _ _ _ hka))
    · exact ht.alone _ _ _ _ _ hka hkb
  rows id entry hrow := by
    cases exec_origin (exec_state h) hrow with
    | stored => exact (inserted_of_stored ht h hproper).2
    | kept hold | updated hold | claimed hold _ | requeued hold _ =>
      exact (ht.rows id _ hold).exec h hproper
  seen other base hseen := by
    refine lt_of_lt_of_le ?_ (nextBase_le h)
    rcases seen_exec h hseen with hold | ⟨id, entry, rfl, hrow⟩
    · exact ht.seen other base hold
    · exact (ht.rows id entry hrow).1

theorem UndoneBelow.exec (hu : UndoneBelow w) (ht : Tidy w)
    (hfault : ∀ id, c = .dequeue id → (phaseOf w thread).storing.isSome = true →
      choice.fault = false) : UndoneBelow w' := by
  intro other base stored undone hphase index entry hrow
  have hkeep : phaseOf w other = .undoing base stored undone → undone ≤ index := by
    intro hbefore
    rcases old_or_stored h hrow with ⟨old, hold⟩ | rfl
    · exact hu other base stored undone hbefore index old hold
    have hspool : phaseOf w thread = .spooling base index true := hproper.1
    obtain rfl := ht.alone other thread base stored index (by rw [hbefore]; rfl)
      (by rw [hspool]; rfl)
    rw [hbefore] at hspool
    cases hspool
  rcases phaseOf_entered h other with hsame | ⟨rfl, hentered⟩
  · exact hkeep (hsame ▸ hphase)
  rw [hphase] at hentered
  generalize hbefore : phaseOf w other = before at hentered
  cases hentered with
  | kept => exact hkeep hbefore
  | refused => exact Nat.zero_le _
  | @undone id result base stored before hphase' =>
    subst hphase'
    obtain ⟨rfl, _⟩ := hproper base stored before hbefore
    have hsound := hfault _ rfl (by rw [hbefore]; rfl)
    rcases exec_dequeue (exec_state h) with ⟨htrue, _⟩ | hrows
    · rw [hsound] at htrue
      cases htrue
    rw [hrows, getElem?_erase] at hrow
    split_ifs at hrow with he
    have hle := hu other base stored before hbefore index entry hrow
    have hne : before ≠ index := fun heq => he (by rw [heq])
    omega

end Steps

theorem tidy_empty : Tidy ⟨State.empty, []⟩ where
  below _ _ _ h := by cases h
  alone _ _ _ _ _ h := by cases h
  rows _ _ h := by cases h
  seen _ _ h := by cases h

end UMail.Queue
