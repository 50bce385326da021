import UMail.Queue.SingleDelivery

namespace UMail.Queue

open Concurrency UMail.Storage UMail.Db

section Spec

def lastClaim : List (Event sig) → Option (EntryID × QueueEntry)
  | [] => none
  | ⟨_, .claimQueueEntry id _, .ok claimed⟩ :: _ => some (id, claimed)
  | _ :: own => lastClaim own

-- Without options the sender hears of a failure, with options only if they ask
-- for it.
def wantsFailure (notify : Nat) : Bool :=
  notify = 0 || (notify &&& notifyNever = 0 && notify &&& notifyFailure ≠ 0)

def Call.stores : (c : Call) → c.Result → Bool
  | .enqueueWithLimit _ _, .ok _ => true
  | _, _ => false

def attempts (id : EntryID) (log : List (Event sig)) : Nat :=
  log.countP fun event => event.call.claims id event.result

-- A failure is notified while its outcome is still to be recorded, the other
-- notifications follow the record.
def failureNotices (id : EntryID) : List (Event sig) → Nat
  | [] => 0
  | event :: before => failureNotices id before +
      if event.call.stores event.result &&
        (openClaim (ownLog event.thread before)).any (fun claim => claim.1 = id) then 1 else 0

def Permitted : List (Event sig) → Prop
  | [] => True
  | event :: own => (event.call.stores event.result = true →
      ((lastClaim own).all fun claim => claim.2.fromAddr ≠ []) = true ∧
      ((openClaim own).all fun claim => wantsFailure claim.2.notify) = true) ∧ Permitted own

structure LifeCycle (limit : Nat) (w : World sig State) : Prop where
  bounded : ∀ id, attempts id w.log ≤ limit
  waits : ∀ (id : EntryID) (entry : QueueEntry), w.state.rows[id]? = some entry →
    entry.final = false → (∃ thread claimed, openClaim (ownLog thread w.log) = some (id, claimed)) ∨
      entry.status = .pending ∧ attempts id w.log < limit
  once : ∀ id, failureNotices id w.log ≤ 1
  permitted : ∀ thread, Permitted (ownLog thread w.log)

def Final (w w' : World sig State) : Prop :=
  ∀ (id : EntryID) (entry later : QueueEntry), w.state.rows[id]? = some entry → entry.final = true →
    w'.state.rows[id]? = some later → later = entry

def Task.retries : Task → Bool
  | .retry _ => true
  | _ => false

def WritesOutcome : Call → Choice → Prop
  | .updateQueueEntry _ _, choice => choice.fault = false
  | _, _ => True

instance (c : Call) (choice : Choice) : Decidable (WritesOutcome c choice) := by
  apply @Call.casesOn (fun c => Decidable (WritesOutcome c choice)) c
  case updateQueueEntry => exact fun _ _ => inferInstanceAs (Decidable (_ = false))
  all_goals
    intros
    exact isTrue trivial

abbrev Undisturbed (setup : Setup) (w : World sig State) (_thread : Nat) (c : Call)
    (choice : Choice) : Prop :=
  WithinLease setup.claimLease w c ∧ WritesOutcome c choice

def noRetries : Setup := { plainSetup with maxRetries := 0 }

-- The first attempt is made in any case.
theorem lifeCycle_fails_no_retries :
    ¬ ∀ (setup : Setup) (tasks : List Task) (cfg : Config sig State Outcome),
      (∀ task ∈ tasks, task.retries = false) →
      Run (machine setup) (Undisturbed setup) (begin setup tasks) cfg →
        LifeCycle setup.maxRetries cfg.world := by
  intro h
  let tasks : List Task := [.enqueueWithDSN (bytes "s@a") [.plain (bytes "r@b")] (bytes "m"), .worker 1]
  have hrun : ((begin noRetries tasks).replay (machine noRetries) (Undisturbed noRetries)
      (List.replicate 5 (0, choiceAt 0) ++ List.replicate 4 (1, choiceAt 1))).any (fun cfg =>
        attempts ⟨0, 0⟩ cfg.world.log == 1) = true := by
    decide
  obtain ⟨cfg, hcfg, hfacts⟩ := (Option.any_eq_true _ _).mp hrun
  have hle := (h noRetries tasks cfg (by decide) (Run.of_replay hcfg)).bounded ⟨0, 0⟩
  rw [beq_iff_eq.mp hfacts] at hle
  exact absurd hle (by decide)

end Spec

section Conduct

variable {c : Call} {own : List (Event sig)}

def notices : List (Event sig) → Nat
  | [] => 0
  | ⟨_, .claimQueueEntry _ _, .ok _⟩ :: _ => 0
  | ⟨_, .enqueueWithLimit _ _, .ok _⟩ :: own => notices own + 1
  | _ :: own => notices own

def missed (id : EntryID) : List (Event sig) → Bool
  | [] => false
  | ⟨_, .updateQueueEntry id' _, .error .notFound⟩ :: own => id' = id || missed id own
  | _ :: own => missed id own

def Settles (setup : Setup) (claimed entry : QueueEntry) : Prop :=
  entry.status = .delivered ∧ entry.retryCount = claimed.retryCount ∨
    entry.retryCount = claimed.retryCount + 1 ∧
      (entry.status = .bounced ∨ entry.status = .pending ∧ entry.retryCount < setup.maxRetries)

-- How a worker deals with the entry it has claimed.
def Tends (setup : Setup) (own : List (Event sig)) : Call → Prop
  | .enqueueWithLimit _ entry => entry.retryCount = 0 ∧
      (∀ id claimed, lastClaim own = some (id, claimed) → claimed.fromAddr ≠ []) ∧
      ∀ id claimed, openClaim own = some (id, claimed) →
        notices own = 0 ∧ wantsFailure claimed.notify = true
  | .claimQueueEntry _ _ => openClaim own = none
  | .updateQueueEntry id entry => ∃ claimed, openClaim own = some (id, claimed) ∧
      Settles setup claimed entry ∧ (entry.status ≠ .bounced → notices own = 0)
  | .releaseDomainSlot _ => ∀ id claimed, openClaim own = some (id, claimed) → missed id own = true
  | _ => True

def Tending (setup : Setup) : List (Event sig) → Prop
  | [] => True
  | event :: own => Tends setup own event.call ∧ Tending setup own

def Call.aside : Call → Bool
  | .enqueueWithLimit _ _ | .claimQueueEntry _ _ | .updateQueueEntry _ _
  | .releaseDomainSlot _ => false
  | _ => true

abbrev Aside (c : Call) : Prop := c.aside = true

structure Attention where
  current : Option (EntryID × QueueEntry)
  last : Option (EntryID × QueueEntry)
  notices : Nat

def attention (own : List (Event sig)) : Attention := ⟨openClaim own, lastClaim own, notices own⟩

theorem tends_of_aside {setup : Setup} (h : c.aside = true) : Tends setup own c := by
  cases c <;> trivial

theorem attention_of_aside {thread : Nat} {result : c.Result}
    (h : c.aside = true) : attention (⟨thread, c, result⟩ :: own) = attention own := by
  cases c <;> first | rfl | cases h

variable {setup : Setup} {ok : World sig State → Nat → Call → Choice → Prop} {thread : Nat}
  {α : Type} {pre : List (Event sig) → Prop} {post : α → List (Event sig) → Prop}

abbrev Minds {α : Type} (setup : Setup) (ok : World sig State → Nat → Call → Choice → Prop)
    (thread : Nat) (pre : List (Event sig) → Prop) (program : Prog α)
    (post : α → List (Event sig) → Prop) : Prop :=
  Acts (machine setup) ok (fun _ own => Tending setup own) thread pre program post

namespace Minds

theorem step {c : Call} {rest : c.Result → Prog α} (middle : c.Result → List (Event sig) → Prop)
    (hcall : ∀ result own, pre own → Tends setup own c ∧ middle result (⟨thread, c, result⟩ :: own))
    (hrest : ∀ result, Minds setup ok thread (middle result) (rest result) post) :
    Minds setup ok thread pre (invoke c >>= rest) post := by
  refine Acts.perform_bind middle ?_ hrest
  intro w choice result w' hok hexec hgood hpre
  obtain ⟨htends, hmiddle⟩ := hcall result _ hpre
  exact ⟨⟨htends, hgood⟩, hmiddle⟩

theorem last {c : Call} {post : c.Result → List (Event sig) → Prop}
    (hcall : ∀ result own, pre own → Tends setup own c ∧ post result (⟨thread, c, result⟩ :: own)) :
    Minds setup ok thread pre (invoke c) post := by
  have hdone : ∀ result, Minds setup ok thread (post result) (Program.done result) post :=
    fun _ => Acts.done fun _ h => h
  exact step post hcall hdone

theorem pass {c : Call} {rest : c.Result → Prog α} (P : Attention → Prop) (hc : c.aside = true)
    (hrest : ∀ result, Minds setup ok thread (fun own => P (attention own)) (rest result) post) :
    Minds setup ok thread (fun own => P (attention own)) (invoke c >>= rest) post := by
  refine step (fun _ own => P (attention own)) ?_ hrest
  intro result own h
  rw [attention_of_aside hc]
  exact ⟨tends_of_aside hc, h⟩

theorem of_aside {program : Prog α} (P : Attention → Prop) (hcalls : program.Calls Aside) :
    Minds setup ok thread (fun own => P (attention own)) program
      fun _ own => P (attention own) := by
  refine Acts.of_calls hcalls fun c result own hc hgood h => ?_
  rw [attention_of_aside hc]
  exact ⟨⟨tends_of_aside hc, hgood⟩, h⟩

end Minds

def StoresNew : Call → Prop
  | .enqueueWithLimit _ entry => entry.retryCount = 0
  | c => c.aside = true

theorem rollback_storesNew (base count index : Nat) : (rollback base count index).Calls StoresNew := by
  induction count generalizing index with
  | zero => trivial
  | succ count ih => exact .next rfl fun _ => ih (index + 1)

variable (fromAddr : Bytes)

theorem enqueueRows_storesNew (base : Nat) (now : Int) (rcpts : List Recipient)
    (index : Nat) : (enqueueRows fromAddr base now rcpts index).Calls StoresNew := by
  induction rcpts generalizing index with
  | nil => trivial
  | cons rcpt rest ih =>
    refine .next rfl fun result => ?_
    cases result with
    | ok _ => exact ih (index + 1)
    | error _ =>
      exact .bind (rollback_storesNew base index 0) fun _ => .next rfl fun _ => trivial

theorem dispatchEntries_storesNew (base : Nat) (rcpts : List Recipient) (index : Nat) :
    (dispatchEntries base rcpts index).Calls StoresNew := by
  induction rcpts generalizing index with
  | nil => trivial
  | cons rcpt rest ih => exact .next rfl fun _ => ih (index + 1)

theorem storeAndDispatch_storesNew (base : Nat) (rcpts : List Recipient) :
    (storeAndDispatch fromAddr base rcpts).Calls StoresNew := by
  refine .next rfl fun now => .bind (enqueueRows_storesNew _ _ _ _ _) fun result => ?_
  cases result with
  | error _ => trivial
  | ok _ => exact .bind (dispatchEntries_storesNew _ _ _) fun _ => trivial

theorem enqueueWithDSN_storesNew (rcpts : List Recipient) (message : Bytes) :
    (enqueueWithDSN fromAddr rcpts message).Calls StoresNew := by
  unfold enqueueWithDSN
  split
  · trivial
  refine .next rfl fun base => .next rfl fun result => ?_
  cases result with
  | error _ => trivial
  | ok _ => exact storeAndDispatch_storesNew _ _ _

theorem enqueue_storesNew (rcpts : List Bytes) (message : Bytes) :
    (enqueue fromAddr rcpts message).Calls StoresNew := by
  unfold enqueue
  split
  · trivial
  refine .next rfl fun base => .next rfl fun result => ?_
  cases result with
  | error _ => trivial
  | ok _ =>
    exact .next rfl fun _ => .bind (storeAndDispatch_storesNew _ _ _)
      fun _ => .next rfl fun _ => trivial

def Free (last : Option (EntryID × QueueEntry)) (own : List (Event sig)) : Prop :=
  openClaim own = none ∧ lastClaim own = last

theorem storesNew_cases (h : StoresNew c) :
    c.aside = true ∨ ∃ id entry, c = .enqueueWithLimit id entry ∧ entry.retryCount = 0 := by
  cases c
  case enqueueWithLimit id entry => exact .inr ⟨id, entry, rfl, h⟩
  all_goals exact .inl h

theorem Minds.of_storesNew {program : Prog α} {last : Option (EntryID × QueueEntry)}
    (hlast : ∀ id claimed, last = some (id, claimed) → claimed.fromAddr ≠ [])
    (hcalls : program.Calls StoresNew) :
    Minds setup ok thread (Free last) program fun _ => Free last := by
  refine Acts.of_calls hcalls fun c result own hc hgood hfree => ?_
  rcases storesNew_cases hc with haside | ⟨id, entry, rfl, hcount⟩
  · have hsame : attention (⟨thread, c, result⟩ :: own) = attention own := attention_of_aside haside
    exact ⟨⟨tends_of_aside haside, hgood⟩, (congrArg Attention.current hsame).trans hfree.1,
      (congrArg Attention.last hsame).trans hfree.2⟩
  obtain ⟨hopen, rfl⟩ := hfree
  refine ⟨⟨⟨hcount, hlast, ?_⟩, hgood⟩, hopen, rfl⟩
  intro id claimed h
  rw [hopen] at h
  cases h

section Attempts

variable {id : EntryID} {claimed entry : QueueEntry}

def AtWork (id : EntryID) (claimed : QueueEntry) (notices : Nat) (state : Attention) : Prop :=
  state = ⟨some (id, claimed), some (id, claimed), notices⟩

def Resolved (own : List (Event sig)) : Prop :=
  ∀ id claimed, openClaim own = some (id, claimed) → missed id own = true

variable {last : Option (EntryID × QueueEntry)} {count pages : Nat} {own : List (Event sig)}

theorem Free.resolved (h : Free last own) : Resolved own := by
  intro id claimed hopen
  rw [h.1] at hopen
  cases hopen

def Written (id : EntryID) (claimed : QueueEntry) :
    Except QueueError Unit → List (Event sig) → Prop
  | .ok _, own => Free (some (id, claimed)) own
  | .error .notFound, own => Resolved own
  | .error _, _ => False

theorem Written.resolved {err : QueueError} (h : Written id claimed (.error err) own) :
    Resolved own := by
  cases err
  case notFound => exact h
  all_goals exact h.elim

abbrev Recording (ok : World sig State → Nat → Call → Choice → Prop) : Prop :=
  ∀ w thread c choice, ok w thread c choice → WritesOutcome c choice

theorem written_update (hok : Recording ok)
    {w w' : World sig State} {choice : Choice} {result : Except QueueError Unit}
    (hallowed : ok w thread (.updateQueueEntry id entry) choice)
    (hexec : w.exec (machine setup) thread (.updateQueueEntry id entry) choice = some (result, w'))
    (hat : AtWork id claimed count (attention (ownLog thread w.log))) :
    Written id claimed result (⟨thread, .updateQueueEntry id entry, result⟩ :: ownLog thread w.log) := by
  have hopen : openClaim (ownLog thread w.log) = some (id, claimed) := congrArg Attention.current hat
  have hlast : lastClaim (ownLog thread w.log) = some (id, claimed) := congrArg Attention.last hat
  have hsound : choice.fault = false := hok w thread _ choice hallowed
  have hstate := exec_state hexec
  simp only [exec, State.transact, updateQueueEntry, hsound, Bool.false_eq_true, if_false,
    Option.some.injEq, Prod.mk.injEq] at hstate
  obtain ⟨hresult, _⟩ := hstate
  split at hresult
  next =>
    subst hresult
    intro id' claimed' h
    have hsame : openClaim (ownLog thread w.log) = some (id', claimed') := h
    rw [hopen] at hsame
    cases hsame
    simp [missed]
  next =>
    subst hresult
    exact ⟨by simp [openClaim, hopen], hlast⟩

theorem persistEntry_minds (hok : Recording ok)
    (hsettles : Settles setup claimed entry) (hsilent : entry.status ≠ .bounced → count = 0) :
    Minds setup ok thread (AtWork id claimed count ∘ attention) (persistEntry id entry)
      (Written id claimed) := by
  refine Minds.pass (AtWork id claimed count) rfl fun _ => ?_
  refine Acts.perform_bind (Written id claimed) ?_ fun result => ?_
  · intro w choice result w' hallowed hexec hgood hat
    have hopen : openClaim (ownLog thread w.log) = some (id, claimed) := congrArg Attention.current hat
    have hcount : notices (ownLog thread w.log) = count := congrArg Attention.notices hat
    exact ⟨⟨⟨claimed, hopen, hsettles, fun hne => hcount.trans (hsilent hne)⟩, hgood⟩,
      written_update hok hallowed hexec hat⟩
  · match result with
    | .ok _ => exact Acts.done fun _ h => h
    | .error .notFound => exact Acts.done fun _ h => h
    | .error .fault | .error .full | .error .notClaimable | .error .noRecipients | .error .spool =>
      exact fun _ h => h.elim

theorem countMessageRefs_aside (base pages : Nat) (after : Option EntryID) (count : Nat) :
    (countMessageRefs base pages after count).Calls Aside := by
  induction pages generalizing after count with
  | zero => exact .next rfl fun stopped => stopped.elim
  | succ pages ih =>
    refine .next rfl fun result => ?_
    match result with
    | .error _ => trivial
    | .ok (found, none) => trivial
    | .ok (found, some key) => exact ih (some key) (count + found)

theorem deleteMessageFileIfUnreferenced_aside (pages base : Nat) :
    (deleteMessageFileIfUnreferenced pages base).Calls Aside := by
  refine .next rfl fun _ => .bind (countMessageRefs_aside base pages none 0) fun refs => ?_
  split
  · exact .next rfl fun _ => .perform rfl
  · exact .perform rfl

-- Nothing is stored for an entry without a sender.
theorem notifySender_free (hlast : ∀ id claimed, last = some (id, claimed) → claimed.fromAddr ≠ [])
    (message : Bytes) :
    Minds setup ok thread (Free last) (notifySender entry message) fun _ => Free last :=
  Acts.bind _ (Minds.of_storesNew hlast (enqueue_storesNew _ _ _)) fun _ => Acts.skip

theorem free_aside {program : Prog α} (hcalls : program.Calls Aside) :
    Minds setup ok thread (Free last) program fun _ => Free last :=
  Minds.of_aside (fun state => state.current = none ∧ state.last = last) hcalls

theorem sendSuccessDSN_minds (hsender : entry.fromAddr = claimed.fromAddr) :
    Minds setup ok thread (Free (some (id, claimed))) (sendSuccessDSN setup id entry)
      fun _ => Free (some (id, claimed)) := by
  unfold sendSuccessDSN
  split
  next => exact Acts.skip
  next hne =>
    refine Minds.pass (fun state => state.current = none ∧ state.last = some (id, claimed)) rfl
      fun original => ?_
    split
    next => exact Acts.skip
    next =>
      refine notifySender_free ?_ _
      rintro _ _ ⟨⟩
      rwa [← hsender]

theorem handleDeliverySuccess_minds (hok : Recording ok) :
    Minds setup ok thread (AtWork id claimed 0 ∘ attention)
      (handleDeliverySuccess setup pages id claimed) fun _ => Resolved := by
  refine Minds.pass (AtWork id claimed 0) rfl fun _ => ?_
  refine Acts.bind _ (persistEntry_minds hok (.inl ⟨rfl, rfl⟩) fun _ => rfl) fun result => ?_
  have hclose : Minds setup ok thread (Free (some (id, claimed)))
      (deleteMessageFileIfUnreferenced pages id.base) fun _ => Resolved :=
    Acts.weaken (free_aside (deleteMessageFileIfUnreferenced_aside pages id.base))
      fun _ _ h => h.resolved
  cases result with
  | error err => exact Acts.done fun _ h => h.resolved
  | ok _ =>
    refine Minds.pass (fun state => state.current = none ∧ state.last = some (id, claimed)) rfl
      fun _ => ?_
    split
    · exact Acts.bind _ (sendSuccessDSN_minds rfl) fun _ => hclose
    · exact hclose

def Notified (id : EntryID) (claimed : QueueEntry) (state : Attention) : Prop :=
  ∃ count, AtWork id claimed count state

theorem enqueueRows_notified (hsender : claimed.fromAddr ≠ [])
    (hwants : wantsFailure claimed.notify = true) (base : Nat) (now : Int) {addr : Bytes} :
    Minds setup ok thread (AtWork id claimed 0 ∘ attention)
      (enqueueRows [] base now [.plain addr] 0) fun _ => Notified id claimed ∘ attention := by
  refine Minds.step (fun _ => Notified id claimed ∘ attention) ?_ fun result => ?_
  · intro result own hat
    have hopen : openClaim own = some (id, claimed) := congrArg Attention.current hat
    have hlast : lastClaim own = some (id, claimed) := congrArg Attention.last hat
    have hcount : notices own = 0 := congrArg Attention.notices hat
    refine ⟨⟨rfl, ?_, ?_⟩, ?_⟩
    · intro id' claimed' h
      rw [hlast] at h
      cases h
      exact hsender
    · intro id' claimed' h
      rw [hopen] at h
      cases h
      exact ⟨hcount, hwants⟩
    · cases result with
      | error _ => exact ⟨0, hat⟩
      | ok _ =>
        refine ⟨1, ?_⟩
        rw [AtWork, attention, Attention.mk.injEq]
        exact ⟨hopen, hlast, by rw [notices, hcount]⟩
  · cases result with
    | ok _ => exact Acts.skip
    | error _ => exact Minds.of_aside (Notified id claimed) (.next rfl fun _ => trivial)

theorem notifySender_notified (hsender : claimed.fromAddr ≠ [])
    (hwants : wantsFailure claimed.notify = true) (message : Bytes) :
    Minds setup ok thread (AtWork id claimed 0 ∘ attention)
      (notifySender entry message) fun _ => Notified id claimed ∘ attention := by
  refine Acts.bind (fun _ => Notified id claimed ∘ attention) ?_
    fun _ => Acts.skip
  unfold enqueue
  refine Minds.pass (AtWork id claimed 0) rfl fun base => Minds.pass (AtWork id claimed 0) rfl
    fun result => ?_
  rcases result with _ | _
  · exact Acts.done fun _ h => ⟨0, h⟩
  refine Minds.pass (AtWork id claimed 0) rfl fun _ => ?_
  refine Acts.bind (fun _ => Notified id claimed ∘ attention) ?_ fun result =>
    Minds.of_aside (Notified id claimed) (.next rfl fun _ => trivial)
  refine Minds.pass (AtWork id claimed 0) rfl fun now => ?_
  refine Acts.bind _ (enqueueRows_notified hsender hwants base now) fun result => ?_
  cases result with
  | error _ => exact Acts.skip
  | ok _ => exact Minds.of_aside (Notified id claimed) (.next rfl fun _ => trivial)

theorem wantsFailure_iff {notify : Nat} :
    wantsFailure notify = true ↔
      ¬ (notify ≠ 0 ∧ (notify &&& notifyNever ≠ 0 ∨ notify &&& notifyFailure = 0)) := by
  simp only [wantsFailure, Bool.or_eq_true, Bool.and_eq_true, decide_eq_true_eq]
  tauto

theorem enqueueBounce_minds (hsender : entry.fromAddr = claimed.fromAddr)
    (hnotify : entry.notify = claimed.notify) :
    Minds setup ok thread (AtWork id claimed 0 ∘ attention)
      (enqueueBounce setup id entry) fun _ => Notified id claimed ∘ attention := by
  unfold enqueueBounce
  split
  next => exact Acts.done fun _ h => ⟨0, h⟩
  next hwants =>
    rw [hnotify, ← wantsFailure_iff] at hwants
    refine Minds.pass (AtWork id claimed 0) rfl fun original => ?_
    rcases original with _ | original
    · exact Acts.done fun _ h => ⟨0, h⟩
    simp only
    split
    next => exact Acts.done fun _ h => ⟨0, h⟩
    next hne => exact notifySender_notified (hsender ▸ hne) hwants _

structure Failed (setup : Setup) (claimed entry : QueueEntry) : Prop where
  settles : Settles setup claimed entry
  sender : entry.fromAddr = claimed.fromAddr
  notify : entry.notify = claimed.notify

theorem failedEntry_minds {errorMsg : Bytes} {permanent : Bool} :
    Minds setup ok thread (AtWork id claimed 0 ∘ attention)
      (failedEntry setup claimed errorMsg permanent)
      fun entry own => AtWork id claimed 0 (attention own) ∧ Failed setup claimed entry := by
  refine Minds.pass (AtWork id claimed 0) rfl fun _ => ?_
  have hexpired : (isExpired setup claimed.createdAt).Calls Aside := by
    unfold isExpired
    split
    · exact .next rfl fun _ => trivial
    · trivial
  refine Acts.bind _ (Minds.of_aside (AtWork id claimed 0) hexpired) fun expired => ?_
  simp only
  split
  next => exact Acts.done fun _ h => ⟨h, .inr ⟨rfl, .inl rfl⟩, rfl, rfl⟩
  next hretry =>
    have hbelow : claimed.retryCount + 1 < setup.maxRetries := by
      by_contra hnot
      exact hretry (.inr (.inr (Nat.le_of_not_lt hnot)))
    refine Minds.pass (AtWork id claimed 0) rfl fun _ => Minds.pass (AtWork id claimed 0) rfl
      fun _ => ?_
    exact Acts.done fun _ h => ⟨h, .inr ⟨rfl, .inr ⟨rfl, hbelow⟩⟩, rfl, rfl⟩

theorem sendDelayDSN_minds (hsender : entry.fromAddr = claimed.fromAddr) :
    Minds setup ok thread (Free (some (id, claimed))) (sendDelayDSN setup entry)
      fun _ => Free (some (id, claimed)) := by
  unfold sendDelayDSN
  split
  next => exact Acts.skip
  next hne =>
    split
    next => exact Acts.skip
    next =>
      refine notifySender_free ?_ _
      rintro _ _ ⟨⟩
      rwa [← hsender]

theorem recordFailure_minds (hok : Recording ok) (hfailed : Failed setup claimed entry)
    (hsilent : entry.status ≠ .bounced → count = 0) :
    Minds setup ok thread (AtWork id claimed count ∘ attention)
      (recordFailure setup pages id entry) fun _ => Resolved := by
  refine Acts.bind _ (persistEntry_minds hok hfailed.settles hsilent) fun result => ?_
  cases result with
  | error err => exact Acts.done fun _ h => h.resolved
  | ok _ =>
    simp only
    split
    · exact Acts.weaken (free_aside (deleteMessageFileIfUnreferenced_aside pages id.base))
        fun _ _ h => h.resolved
    · split
      · exact Acts.weaken (sendDelayDSN_minds hfailed.sender) fun _ _ h => h.resolved
      · exact Acts.done fun _ h => Free.resolved h

theorem failDelivery_minds (hok : Recording ok) (errorMsg : Bytes) (permanent : Bool) :
    Minds setup ok thread (AtWork id claimed 0 ∘ attention)
      (failDelivery setup pages id claimed errorMsg permanent) fun _ => Resolved := by
  refine Acts.bind _ failedEntry_minds fun entry => ?_
  refine Acts.assuming fun hfailed => ?_
  split
  next hbounced =>
    refine Acts.bind _ (enqueueBounce_minds hfailed.sender hfailed.notify) fun _ => ?_
    rintro w ⟨count, hat⟩
    exact recordFailure_minds hok hfailed (fun hne => absurd hbounced hne) w hat
  next => exact recordFailure_minds hok hfailed fun _ => rfl

theorem attemptDelivery_minds (hok : Recording ok) (pages : Nat) :
    Minds setup ok thread (AtWork id claimed 0 ∘ attention)
      (attemptDelivery setup pages id claimed) fun _ => Resolved := by
  refine Minds.pass (AtWork id claimed 0) rfl fun marked => ?_
  cases marked with
  | true => exact handleDeliverySuccess_minds hok
  | false =>
    refine Minds.pass (AtWork id claimed 0) rfl fun original => ?_
    rcases original with _ | message
    · exact failDelivery_minds hok _ _
    simp only
    split
    · exact failDelivery_minds hok _ _
    refine Minds.pass (AtWork id claimed 0) rfl fun attempt => ?_
    cases attempt with
    | delivered => exact handleDeliverySuccess_minds hok
    | temporary | permanent => exact failDelivery_minds hok _ _

def Taken (id : EntryID) : Except QueueError QueueEntry → List (Event sig) → Prop
  | .ok claimed, own => AtWork id claimed 0 (attention own)
  | .error _, own => Free none own

theorem deliver_minds (hok : Recording ok) (pages : Nat) {dispatched : Dispatched} :
    Minds setup ok thread (Free none) (deliver setup pages dispatched) fun _ _ => True := by
  refine Minds.pass (fun state => state.current = none ∧ state.last = none) rfl fun slot => ?_
  cases slot with
  | false => exact Minds.last fun _ own _ => ⟨trivial, trivial⟩
  | true =>
    refine Minds.pass (fun state => state.current = none ∧ state.last = none) rfl fun now => ?_
    have hrelease : Minds setup ok thread Resolved
        (invoke (.releaseDomainSlot (setup.toLower (extractDomain dispatched.2))))
        fun _ _ => True := Minds.last fun _ _ h => ⟨h, trivial⟩
    refine Minds.step (Taken dispatched.1) ?_ fun result => ?_
    · rintro result own ⟨hopen, hlast⟩
      refine ⟨hopen, ?_⟩
      cases result with
      | error _ => exact ⟨hopen, hlast⟩
      | ok claimed => exact rfl
    · cases result with
      | error _ => exact Acts.entails _ (fun _ h => Free.resolved h) hrelease
      | ok claimed => exact Acts.bind _ (attemptDelivery_minds hok pages) fun _ => hrelease

end Attempts

section Tasks

variable {tasks : List Task} {cfg : Config sig State Outcome}

theorem sendAll_aside (entries : List Dispatched) : (sendAll entries).Calls Aside := by
  induction entries with
  | nil => trivial
  | cons dispatched rest ih => exact .next rfl fun _ => ih

theorem getPendingQueue_aside (now : Int) (pages : Nat) (after : Option EntryID)
    (found : List Dispatched) : (getPendingQueue now pages after found).Calls Aside := by
  induction pages generalizing after found with
  | zero => exact .next rfl fun stopped => stopped.elim
  | succ pages ih =>
    refine .next rfl fun result => ?_
    match result with
    | .error _ => trivial
    | .ok (page, none) => trivial
    | .ok (page, some key) => exact ih (some key) (found ++ page)

theorem sweepPendingEntries_aside (pages : Nat) : (sweepPendingEntries setup pages).Calls Aside := by
  have hsweep : ∀ now, (getPendingQueue now pages none [] >>= sendAll).Calls Aside := fun now =>
    .bind (getPendingQueue_aside now pages none []) sendAll_aside
  refine .next rfl fun _ => ?_
  split
  · exact .next rfl fun _ => .next rfl fun _ => .next rfl hsweep
  · exact .next rfl hsweep

theorem dropEntry_aside (pages : Nat) (id : EntryID) : (dropEntry pages id).Calls Aside := by
  refine .next rfl fun result => ?_
  rcases result with _ | _
  · exact .next rfl fun _ => trivial
  refine .next rfl fun result => ?_
  cases result with
  | error _ => trivial
  | ok _ => exact .next rfl fun _ => deleteMessageFileIfUnreferenced_aside pages id.base

theorem task_minds (hok : Recording ok) {task : Task} (htask : task.retries = false) :
    Minds setup ok thread (· = []) (task.program setup) fun _ _ => True := by
  have hstart : ∀ own : List (Event sig), own = [] → Free none own := by
    rintro own rfl
    exact ⟨rfl, rfl⟩
  have hnone : ∀ (id : EntryID) (claimed : QueueEntry),
      (none : Option (EntryID × QueueEntry)) = some (id, claimed) → claimed.fromAddr ≠ [] := by
    intro id claimed h
    cases h
  have hplain : ∀ {program : Prog Unit}, program.Calls Aside →
      Minds setup ok thread (· = []) (do program; pure Outcome.finished) fun _ _ => True :=
    fun hcalls => Acts.bind _ (Acts.entails _ hstart (free_aside hcalls))
      fun _ => Acts.done fun _ _ => trivial
  cases task with
  | enqueue fromAddr rcpts message =>
    exact Acts.bind _ (Acts.entails _ hstart (Minds.of_storesNew hnone (enqueue_storesNew _ _ _)))
      fun _ => Acts.done fun _ _ => trivial
  | enqueueWithDSN fromAddr rcpts message =>
    exact Acts.bind _
      (Acts.entails _ hstart (Minds.of_storesNew hnone (enqueueWithDSN_storesNew _ _ _)))
      fun _ => Acts.done fun _ _ => trivial
  | sweep pages => exact hplain (sweepPendingEntries_aside pages)
  | worker pages =>
    refine Acts.bind (fun _ _ => True) (Acts.entails _ hstart ?_)
      fun _ => Acts.done fun _ _ => trivial
    exact Minds.pass (fun state => state.current = none ∧ state.last = none) rfl
      fun dispatched => deliver_minds hok pages
  | timer => exact hplain (.next rfl fun _ => .next rfl fun _ => trivial)
  | retry id => cases htask
  | drop pages id => exact hplain (dropEntry_aside pages id)

theorem run_tending (hok : Recording ok) (htasks : ∀ task ∈ tasks, task.retries = false)
    (hrun : Run (machine setup) ok (begin setup tasks) cfg) (thread : Nat) :
    Tending setup (ownLog thread cfg.world.log) := by
  refine hrun.acts (fun _ own => Tending setup own) (fun _ => trivial) ?_ thread
  intro i program hi
  obtain ⟨task, htask, rfl⟩ := List.mem_map.mp (List.mem_of_getElem? hi)
  exact task_minds hok (htasks task htask)

-- The rule for what every step keeps of a queue that nobody retries by hand,
-- from any state it comes to.
theorem run_tended (hok : Recording ok)
    (htasks : ∀ task ∈ tasks, task.retries = false) {later : Config sig State Outcome}
    (hrun : Run (machine setup) ok (begin setup tasks) cfg) (hlater : Run (machine setup) ok cfg later)
    (inv : World sig State → Prop)
    (hstep : ∀ w thread c choice result w', ok w thread c choice →
      w.exec (machine setup) thread c choice = some (result, w') →
      Proper (ownLog thread w.log) c → Tends setup (ownLog thread w.log) c → inv w → inv w')
    (hinv : inv cfg.world) : inv later.world := by
  induction hlater with
  | start => exact hinv
  | @step cfg' thread c next choice result w before hpool hallowed hexec ih =>
    have hafter := Run.step (hrun.trans before) hpool hallowed hexec
    have horderly := run_orderly hafter thread
    have htending := run_tending hok htasks hafter thread
    rw [ownLog_exec hexec] at horderly htending
    exact hstep _ _ _ _ _ _ hallowed hexec horderly.1 htending.1 ih

end Tasks

end Conduct

end UMail.Queue
