import UMail.Concurrency.History
import UMail.Queue.Manager

namespace UMail.Queue

variable {c : Call}

open Concurrency UMail.Storage UMail.Db

-- How far a thread is with the message it stores or with the message whose
-- references it counts. `spooling` lasts until the first entry is dispatched.
inductive Phase
  | idle
  | spooling (base stored : Nat) (written : Bool)
  | undoing (base stored undone : Nat)
  | dropped (base : Nat)
  | scanning (base : Nat) (reach : Option EntryID)
  deriving DecidableEq, Repr

-- A page without references takes a walk on when it starts where the walk is.
-- After `scanning base reach` no row up to `reach` needs the message.
def Phase.scanned (phase : Phase) (base : Nat) (after : Option EntryID) :
    Except QueueError (Nat × Option EntryID) → Phase
  | .ok (0, key) =>
    if after = none ∨ phase = .scanning base after then .scanning base key else .idle
  | .ok (_ + 1, _) => .idle
  | .error _ => if after = none ∨ phase = .scanning base after then .scanning base none else .idle

def Phase.next (phase : Phase) : Event sig → Phase
  | ⟨_, .generateID, base⟩ => .spooling base 0 false
  | ⟨_, .writeSpool base _, .ok _⟩ => .spooling base 0 true
  | ⟨_, .writeSpool base _, .error _⟩ => .dropped base
  | ⟨_, .enqueueWithLimit id _, .ok _⟩ => .spooling id.base (id.index + 1) true
  | ⟨_, .enqueueWithLimit id _, .error _⟩ => .undoing id.base id.index 0
  | ⟨_, .dequeue _, _⟩ =>
    match phase with
    | .undoing base stored undone => .undoing base stored (undone + 1)
    | other => other
  | ⟨_, .deleteFile base, _⟩ => .dropped base
  | ⟨_, .send _, _⟩ => .idle
  | ⟨_, .countRefs base after, result⟩ => phase.scanned base after result
  | _ => phase

def phase : List (Event sig) → Phase
  | [] => .idle
  | event :: own => (phase own).next event

def issued : List (Event sig) → List Nat
  | [] => []
  | ⟨_, .generateID, base⟩ :: own => base :: issued own
  | _ :: own => issued own

def seen : List (Event sig) → List Nat
  | [] => []
  | ⟨_, .getQueueEntry id, .ok _⟩ :: own => id.base :: seen own
  | ⟨_, .claimQueueEntry id _, .ok _⟩ :: own => id.base :: seen own
  | _ :: own => seen own

-- The delivery attempt a worker is at: claimed, and its outcome neither
-- recorded nor given up.
def openClaim : List (Event sig) → Option (EntryID × QueueEntry)
  | [] => none
  | ⟨_, .claimQueueEntry id _, .ok claimed⟩ :: _ => some (id, claimed)
  | ⟨_, .updateQueueEntry id _, .ok _⟩ :: own => (openClaim own).filter fun claim => claim.1 ≠ id
  | ⟨_, .releaseDomainSlot _, _⟩ :: _ => none
  | _ :: own => openClaim own

-- Where in its program a thread makes a call.
def Proper (own : List (Event sig)) : Call → Prop
  | .writeSpool base _ => phase own = .spooling base 0 false
  | .enqueueWithLimit id entry =>
    phase own = .spooling id.base id.index true ∧ entry.status = .pending
  | .dequeue id => ∀ base stored undone, phase own = .undoing base stored undone →
      id = ⟨base, undone⟩ ∧ undone < stored
  | .deleteFile base => ∃ stored, phase own = .undoing base stored stored
  | .removeMessage base => phase own = .scanning base none
  | .countRefs base _ => base ∈ seen own
  | .transmit id _ _ => ∃ claimed, openClaim own = some (id, claimed)
  | _ => True

def Orderly : List (Event sig) → Prop
  | [] => True
  | event :: own => Proper own event.call ∧ Orderly own

def Call.quiet : Call → Bool
  | .generateID | .writeSpool _ _ | .enqueueWithLimit _ _ | .dequeue _ | .deleteFile _
  | .removeMessage _ | .countRefs _ _ | .send _ | .transmit _ _ _ => false
  | _ => true

theorem proper_of_quiet {own : List (Event sig)} (h : c.quiet = true) : Proper own c := by
  cases c <;> trivial

variable {own : List (Event sig)} {result : c.Result}

theorem phase_of_quiet (h : c.quiet = true) : phase (⟨thread, c, result⟩ :: own) = phase own := by
  cases c <;> first | rfl | cases h

theorem issued_of_quiet (h : c.quiet = true) :
    issued (⟨thread, c, result⟩ :: own) = issued own := by
  cases c <;> first | rfl | cases h

theorem seen_cons {base : Nat} (event : Event sig) (own : List (Event sig)) (h : base ∈ seen own) :
    base ∈ seen (event :: own) := by
  obtain ⟨thread, c, result⟩ := event
  cases c
  case getQueueEntry | claimQueueEntry =>
    cases result
    · exact h
    · exact List.mem_cons_of_mem _ h
  all_goals exact h

abbrev Quiet (c : Call) : Prop := c.quiet = true

abbrev Follows {α : Type} (setup : Setup)
    (ok : World sig State → Nat → Call → Choice → Prop) (thread : Nat)
    (pre : List (Event sig) → Prop) (program : Prog α) (post : α → List (Event sig) → Prop) : Prop :=
  Acts (machine setup) ok (fun _ own => Orderly own) thread pre program post

variable {setup : Setup} {ok : World sig State → Nat → Call → Choice → Prop} {thread : Nat}
  {α : Type} {pre : List (Event sig) → Prop} {post : α → List (Event sig) → Prop}

namespace Follows

variable {c : Call} {rest : c.Result → Prog α}

theorem step {rest : c.Result → Prog α} (middle : c.Result → List (Event sig) → Prop)
    (hcall : ∀ result own, pre own → Proper own c ∧ middle result (⟨thread, c, result⟩ :: own))
    (hrest : ∀ result, Follows setup ok thread (middle result) (rest result) post) :
    Follows setup ok thread pre (invoke c >>= rest) post := by
  refine Acts.perform_bind middle ?_ hrest
  intro w choice result w' hok hexec hgood hpre
  obtain ⟨hproper, hmiddle⟩ := hcall result _ hpre
  exact ⟨⟨hproper, hgood⟩, hmiddle⟩

theorem last {post : c.Result → List (Event sig) → Prop}
    (hcall : ∀ result own, pre own → Proper own c ∧ post result (⟨thread, c, result⟩ :: own)) :
    Follows setup ok thread pre (invoke c) post := by
  have hdone : ∀ result, Follows setup ok thread (post result) (Program.done result) post :=
    fun _ => Acts.done fun _ h => h
  exact step post hcall hdone

theorem quiet (P : Phase → List Nat → Prop) (hc : c.quiet = true)
    (hrest : ∀ result, Follows setup ok thread (fun own => P (phase own) (issued own))
      (rest result) post) :
    Follows setup ok thread (fun own => P (phase own) (issued own)) (invoke c >>= rest) post := by
  refine step (fun _ own => P (phase own) (issued own)) ?_ hrest
  intro result own h
  rw [phase_of_quiet hc, issued_of_quiet hc]
  exact ⟨proper_of_quiet hc, h⟩

theorem of_quiet {program : Prog α} (hpre : ∀ event own, pre own → pre (event :: own))
    (hcalls : program.Calls Quiet) :
    Follows setup ok thread pre program fun _ => pre :=
  Acts.of_calls hcalls fun _ _ own hc hgood h =>
    ⟨⟨proper_of_quiet hc, hgood⟩, hpre _ own h⟩

theorem pass (hc : c.quiet = true) (hpre : ∀ event own, pre own → pre (event :: own))
    (hrest : ∀ result, Follows setup ok thread pre (rest result) post) :
    Follows setup ok thread pre (invoke c >>= rest) post :=
  step (fun _ => pre) (fun _ own h => ⟨proper_of_quiet hc, hpre _ own h⟩) hrest

end Follows

section Enqueue

variable {base : Nat} {prior : List Nat}

theorem rollback_follows (stored count index : Nat) (hcount : index + count = stored) :
    Follows setup ok thread
      (fun own => phase own = .undoing base stored index ∧ issued own = prior)
      (rollback base count index)
      fun _ own => phase own = .undoing base stored stored ∧ issued own = prior := by
  induction count generalizing index with
  | zero =>
    obtain rfl : index = stored := hcount
    exact Acts.skip
  | succ count ih =>
    refine Follows.step
      (fun _ own => phase own = .undoing base stored (index + 1) ∧ issued own = prior) ?_
      fun _ => ih (index + 1) (by omega)
    rintro result own ⟨hphase, hissued⟩
    refine ⟨?_, ?_, hissued⟩
    · intro base' stored' undone' h
      rw [hphase] at h
      cases h
      exact ⟨rfl, by omega⟩
    · simp only [phase, Phase.next, hphase]

variable (fromAddr : Bytes) (rcpts : List Recipient) {own : List (Event sig)}

-- After an error the message and its entries have been taken back.
theorem enqueueRows_follows (now : Int) (rcpts : List Recipient) (index : Nat) :
    Follows setup ok thread
      (fun own => phase own = .spooling base index true ∧ issued own = prior)
      (enqueueRows fromAddr base now rcpts index)
      fun result own => issued own = prior ∧ ∀ err, result = .error err →
        phase own = .dropped base := by
  induction rcpts generalizing index with
  | nil => exact Acts.done fun _ h => ⟨h.2, fun _ he => by cases he⟩
  | cons rcpt rest ih =>
    refine Follows.step (fun result own => issued own = prior ∧
      phase own = match result with
        | .ok _ => .spooling base (index + 1) true
        | .error _ => .undoing base index 0) ?_ fun result => ?_
    · rintro result own ⟨hphase, hissued⟩
      refine ⟨⟨hphase, rfl⟩, hissued, ?_⟩
      cases result <;> rfl
    · cases result with
      | ok _ => exact Acts.entails _ (fun _ h => ⟨h.2, h.1⟩) (ih (index + 1))
      | error err =>
        refine Acts.bind _ (Acts.entails _ (fun _ h => ⟨h.2, h.1⟩)
          (rollback_follows index index 0 (Nat.zero_add index))) fun _ => ?_
        refine Follows.step (fun _ own => phase own = .dropped base ∧ issued own = prior) ?_
          fun _ => Acts.done fun _ h => ⟨h.2, fun _ _ => h.1⟩
        exact fun _ _ h => ⟨⟨index, h.1⟩, rfl, h.2⟩

theorem dispatchEntries_follows (index : Nat) :
    Follows setup ok thread (fun own => issued own = prior) (dispatchEntries base rcpts index)
      fun _ own => issued own = prior := by
  induction rcpts generalizing index with
  | nil => exact Acts.skip
  | cons rcpt rest ih =>
    exact Follows.step (fun _ own => issued own = prior) (fun _ _ h => ⟨trivial, h⟩)
      fun _ => ih (index + 1)

theorem storeAndDispatch_follows :
    Follows setup ok thread (fun own => phase own = .spooling base 0 true ∧ issued own = prior)
      (storeAndDispatch fromAddr base rcpts)
      fun result own => issued own = prior ∧ ∀ err, result = .error err →
        phase own = .dropped base := by
  refine Follows.quiet (fun p taken => p = .spooling base 0 true ∧ taken = prior) rfl fun now => ?_
  refine Acts.bind _ (enqueueRows_follows fromAddr now rcpts 0) fun result => ?_
  cases result with
  | error err => exact Acts.done fun _ h => ⟨h.1, fun _ _ => h.2 err rfl⟩
  | ok _ =>
    refine Acts.bind _ (Acts.entails _ (fun _ h => h.1) (dispatchEntries_follows rcpts 0))
      fun _ => Acts.done fun _ h => ⟨h, fun _ he => by cases he⟩

-- What a failed call leaves behind: a base it took before, or nothing.
def Retracted (prior : List Nat) (result : Except QueueError Nat) (own : List (Event sig)) : Prop :=
  ∀ err, result = .error err → ∀ base ∈ issued own, base ∈ prior ∨ phase own = .dropped base

theorem retracted_of_dropped {result : Except QueueError Nat} (hissued : issued own = base :: prior)
    (hphase : ∀ err, result = .error err → phase own = .dropped base) :
    Retracted prior result own := by
  intro err he taken htaken
  rw [hissued] at htaken
  rcases List.mem_cons.mp htaken with rfl | hprior
  · exact .inr (hphase err he)
  · exact .inl hprior

theorem spooled_follows {rest : Nat → Prog (Except QueueError Nat)} {message : Bytes}
    (hrest : ∀ base, Follows setup ok thread
      (fun own => phase own = .spooling base 0 true ∧ issued own = base :: prior) (rest base)
      (Retracted prior)) :
    Follows setup ok thread (fun own => issued own = prior)
      (do
        let base ← invoke .generateID
        match ← invoke (.writeSpool base message) with
        | .error _ => pure (.error .spool)
        | .ok _ => rest base) (Retracted prior) := by
  refine Follows.step
    (fun base own => phase own = .spooling base 0 false ∧ issued own = base :: prior) ?_
    fun (base : Nat) => ?_
  · rintro base own rfl
    exact ⟨trivial, rfl, rfl⟩
  · refine Follows.step (fun result own => issued own = base :: prior ∧
      phase own = match result with
        | .ok _ => .spooling base 0 true
        | .error _ => .dropped base) ?_ fun result => ?_
    · rintro result own ⟨hphase, hissued⟩
      refine ⟨hphase, hissued, ?_⟩
      cases result <;> rfl
    · cases result with
      | error _ => exact Acts.done fun _ h => retracted_of_dropped h.1 fun _ _ => h.2
      | ok _ => exact Acts.entails _ (fun _ h => ⟨h.2, h.1⟩) (hrest base)

theorem retracted_of_empty {err : QueueError} (h : issued own = prior) :
    Retracted prior (.error err) own :=
  fun _ _ _ hbase => .inl (h ▸ hbase)

theorem enqueueWithDSN_follows (message : Bytes) :
    Follows setup ok thread (fun own => issued own = prior) (enqueueWithDSN fromAddr rcpts message)
      (Retracted prior) := by
  unfold enqueueWithDSN
  split
  · exact Acts.done fun _ h => retracted_of_empty h
  · refine spooled_follows fun base => ?_
    exact Acts.weaken (storeAndDispatch_follows fromAddr rcpts) fun _ _ h =>
      retracted_of_dropped h.1 h.2

theorem enqueue_follows (rcpts : List Bytes) (message : Bytes) :
    Follows setup ok thread (fun own => issued own = prior) (enqueue fromAddr rcpts message)
      (Retracted prior) := by
  unfold enqueue
  split
  · exact Acts.done fun _ h => retracted_of_empty h
  refine spooled_follows fun base => ?_
  refine Follows.quiet (fun p taken => p = .spooling base 0 true ∧ taken = base :: prior) rfl
    fun _ => ?_
  refine Acts.bind _ (storeAndDispatch_follows fromAddr _) fun result => ?_
  refine Follows.quiet (fun p taken => taken = base :: prior ∧ ∀ err, result = .error err →
    p = .dropped base) rfl fun _ => Acts.done fun _ h => retracted_of_dropped h.1 h.2

end Enqueue

section Delivery

variable {base : Nat}

abbrev Anywhere : List (Event sig) → Prop := fun _ => True

abbrev Known (base : Nat) : List (Event sig) → Prop := fun own => base ∈ seen own

variable (pages : Nat) (id : EntryID) (claimed : QueueEntry) (entry : QueueEntry)

-- A walk that has counted nothing has seen the whole queue.
theorem countMessageRefs_follows (after : Option EntryID) (count : Nat) : Follows setup ok thread
      (fun own => Known base own ∧ (count = 0 → after = none ∨ phase own = .scanning base after))
      (countMessageRefs base pages after count)
      fun refs own => Known base own ∧ (refs = 0 → phase own = .scanning base none) := by
  induction pages generalizing after count with
  | zero =>
    exact Follows.step (fun _ => Anywhere) (fun _ _ _ => ⟨trivial, trivial⟩)
      fun stopped => stopped.elim
  | succ pages ih =>
    refine Follows.step (fun result own => Known base own ∧ match result with
      | .error _ => count = 0 → phase own = .scanning base none
      | .ok (found, key) => count + found = 0 → phase own = .scanning base key) ?_ fun result => ?_
    · rintro result own ⟨hknown, h⟩
      refine ⟨hknown, seen_cons _ _ hknown, ?_⟩
      match result with
      | .error _ => exact fun hcount => if_pos (h hcount)
      | .ok (0, key) => exact fun hcount => if_pos (h hcount)
      | .ok (found + 1, key) => exact fun hcount => by cases hcount
    · match result with
      | .error _ => exact Acts.done fun _ h => h
      | .ok (found, none) => exact Acts.done fun _ h => h
      | .ok (found, some key) =>
        exact Acts.entails _ (fun _ h => ⟨h.1, fun hcount => .inr (h.2 hcount)⟩)
          (ih (some key) (count + found))

theorem deleteMessageFileIfUnreferenced_follows :
    Follows setup ok thread (Known base) (deleteMessageFileIfUnreferenced pages base)
      fun _ => Anywhere := by
  refine Follows.pass rfl seen_cons fun _ => ?_
  refine Acts.bind _ (Acts.entails _ (fun _ h => ⟨h, fun _ => .inl rfl⟩)
    (countMessageRefs_follows pages none 0)) fun refs => ?_
  have hunlock : Follows setup ok thread Anywhere (invoke .unlock) fun _ => Anywhere :=
    Follows.last fun _ _ _ => ⟨trivial, trivial⟩
  by_cases hrefs : refs = 0
  · subst hrefs
    exact Follows.step (fun _ => Anywhere) (fun _ _ h => ⟨h.2 rfl, trivial⟩) fun _ => hunlock
  · simp only [hrefs]
    exact Acts.entails _ (fun _ _ => trivial) hunlock

theorem retryEntry_follows :
    Follows setup ok thread Anywhere (retryEntry id) fun _ => Anywhere := by
  refine Follows.pass rfl (fun _ _ h => h) fun entry => ?_
  rcases entry with _ | entry
  · exact Acts.skip
  refine Follows.pass rfl (fun _ _ h => h) fun _ => Follows.pass rfl (fun _ _ h => h)
    fun _ => Follows.pass rfl (fun _ _ h => h) fun result => ?_
  cases result with
  | error _ => exact Acts.skip
  | ok _ =>
    exact Follows.step (fun _ => Anywhere) (fun _ _ _ => ⟨trivial, trivial⟩)
      fun _ => Acts.skip

theorem dropEntry_follows :
    Follows setup ok thread (fun own => phase own = .idle) (dropEntry pages id)
      fun _ => Anywhere := by
  have hdequeue : ∀ own, phase own = .idle → Proper own (.dequeue id) := by
    intro own hidle base stored undone hundoing
    rw [hidle] at hundoing
    cases hundoing
  refine Follows.step (fun result own => phase own = .idle ∧
    ∀ entry, result = .ok entry → Known id.base own) ?_ fun entry => ?_
  · intro result own hidle
    refine ⟨trivial, hidle, ?_⟩
    rintro entry rfl
    exact List.mem_cons_self
  cases entry with
  | error _ =>
    exact Follows.step (fun _ => Anywhere) (fun _ own h => ⟨hdequeue own h.1, trivial⟩)
      fun _ => Acts.skip
  | ok entry =>
    refine Follows.step (fun _ => Known id.base)
      (fun _ own h => ⟨hdequeue own h.1, seen_cons _ _ (h.2 entry rfl)⟩) fun result => ?_
    cases result with
    | error _ => exact Acts.done fun _ _ => trivial
    | ok _ =>
      exact Follows.pass rfl seen_cons fun _ => deleteMessageFileIfUnreferenced_follows pages

theorem persistEntry_quiet : (persistEntry id entry).Calls Quiet := by
  refine .next rfl fun _ => ?_
  generalize persistAttempts = attempts
  induction attempts with
  | zero => trivial
  | succ attempts ih =>
    refine .next rfl fun result => ?_
    match result with
    | .ok _ | .error .notFound => trivial
    | .error .fault | .error .full | .error .notClaimable | .error .noRecipients
    | .error .spool =>
      simp only
      split
      · trivial
      · exact ih

theorem failedEntry_quiet (errorMsg : Bytes) (permanent : Bool) :
    (failedEntry setup claimed errorMsg permanent).Calls Quiet := by
  refine .next rfl fun _ => .bind ?_ fun expired => ?_
  · unfold isExpired
    split
    · exact .next rfl fun _ => trivial
    · trivial
  · simp only
    split
    · trivial
    · exact .next rfl fun _ => .next rfl fun _ => trivial

theorem notifySender_follows (message : Bytes) :
    Follows setup ok thread (Known base) (notifySender entry message) fun _ => Known base := by
  refine Acts.remember issued fun prior => ?_
  refine Acts.bind (fun _ => Known base) ?_ fun _ => Acts.skip
  refine Acts.entails _ (fun _ h => ⟨h.2, h.1⟩) (Acts.weaken (Acts.carry seen_cons
    (enqueue_follows [] [entry.fromAddr] message)) fun _ _ h => h.2)

theorem sendSuccessDSN_follows :
    Follows setup ok thread (Known base) (sendSuccessDSN setup id entry) fun _ => Known base := by
  unfold sendSuccessDSN
  split
  · exact Acts.skip
  refine Follows.pass rfl seen_cons fun original => ?_
  split
  · exact Acts.skip
  · exact notifySender_follows _ _

theorem handleDeliverySuccess_follows :
    Follows setup ok thread (Known id.base) (handleDeliverySuccess setup pages id claimed)
      fun _ => Anywhere := by
  refine Follows.pass rfl seen_cons fun _ => ?_
  refine Acts.bind _ (Follows.of_quiet seen_cons (persistEntry_quiet _ _)) fun result => ?_
  rcases result with _ | _
  · exact Acts.done fun _ _ => trivial
  refine Follows.pass rfl seen_cons fun _ => ?_
  split
  · exact Acts.bind _ (sendSuccessDSN_follows _ _)
      fun _ => deleteMessageFileIfUnreferenced_follows pages
  · exact deleteMessageFileIfUnreferenced_follows pages

theorem sendDelayDSN_follows :
    Follows setup ok thread (Known base) (sendDelayDSN setup entry) fun _ => Known base := by
  unfold sendDelayDSN
  split
  · exact Acts.skip
  · split
    · exact Acts.skip
    · exact notifySender_follows _ _

theorem enqueueBounce_follows :
    Follows setup ok thread (Known base) (enqueueBounce setup id entry) fun _ => Known base := by
  unfold enqueueBounce
  split
  · exact Acts.skip
  refine Follows.pass rfl seen_cons fun original => ?_
  rcases original with _ | original
  · exact Acts.skip
  simp only
  split
  · exact Acts.skip
  · exact notifySender_follows _ _

theorem recordFailure_follows :
    Follows setup ok thread (Known id.base) (recordFailure setup pages id entry)
      fun _ => Anywhere := by
  refine Acts.bind _ (Follows.of_quiet seen_cons (persistEntry_quiet _ _)) fun result => ?_
  rcases result with _ | _
  · exact Acts.done fun _ _ => trivial
  simp only
  split
  · exact deleteMessageFileIfUnreferenced_follows pages
  · split
    · exact Acts.weaken (sendDelayDSN_follows entry) fun _ _ _ => trivial
    · exact Acts.done fun _ _ => trivial

theorem failDelivery_follows (errorMsg : Bytes) (permanent : Bool) :
    Follows setup ok thread (Known id.base)
      (failDelivery setup pages id claimed errorMsg permanent) fun _ => Anywhere := by
  refine Acts.bind _ (Follows.of_quiet seen_cons (failedEntry_quiet _ _ _)) fun entry => ?_
  split
  · exact Acts.bind _ (enqueueBounce_follows _ _) fun _ => recordFailure_follows _ _ _
  · exact recordFailure_follows _ _ _

abbrev Attempting : List (Event sig) → Prop :=
  fun own => Known id.base own ∧ openClaim own = some (id, claimed)

theorem attemptDelivery_follows :
    Follows setup ok thread (Attempting id claimed) (attemptDelivery setup pages id claimed)
      fun _ => Anywhere := by
  refine Follows.step (fun _ => Attempting id claimed)
    (fun _ _ h => ⟨trivial, seen_cons _ _ h.1, h.2⟩) fun marked => ?_
  cases marked with
  | true => exact Acts.entails _ (fun _ h => h.1) (handleDeliverySuccess_follows _ _ _)
  | false =>
    refine Follows.step (fun _ => Attempting id claimed)
      (fun _ _ h => ⟨trivial, seen_cons _ _ h.1, h.2⟩) fun original => ?_
    rcases original with _ | message
    · exact Acts.entails _ (fun _ h => h.1) (failDelivery_follows _ _ _ _ _)
    simp only
    split
    · exact Acts.entails _ (fun _ h => h.1) (failDelivery_follows _ _ _ _ _)
    refine Follows.step (fun _ => Known id.base)
      (fun _ _ h => ⟨⟨claimed, h.2⟩, seen_cons _ _ h.1⟩) fun attempt => ?_
    cases attempt with
    | delivered => exact handleDeliverySuccess_follows _ _ _
    | temporary _ => exact failDelivery_follows _ _ _ _ _
    | permanent _ => exact failDelivery_follows _ _ _ _ _

theorem deliver_follows (dispatched : Dispatched) :
    Follows setup ok thread Anywhere (deliver setup pages dispatched) fun _ => Anywhere := by
  refine Follows.pass rfl (fun _ _ h => h) fun slot => ?_
  cases slot with
  | false => exact Follows.last fun _ _ _ => ⟨trivial, trivial⟩
  | true =>
    refine Follows.pass rfl (fun _ _ h => h) fun now => ?_
    have hrelease : Follows setup ok thread Anywhere
        (invoke (.releaseDomainSlot (setup.toLower (extractDomain dispatched.2))))
        fun _ => Anywhere := Follows.last fun _ _ _ => ⟨trivial, trivial⟩
    refine Follows.step (fun result own => ∀ claimed, result = .ok claimed →
      Attempting dispatched.1 claimed own) ?_ fun result => ?_
    · intro result own _
      refine ⟨trivial, ?_⟩
      rintro claimed rfl
      exact ⟨List.mem_cons_self, rfl⟩
    · cases result with
      | error _ => exact Acts.entails _ (fun _ _ => trivial) hrelease
      | ok claimed =>
        exact Acts.bind _ (Acts.entails _ (fun _ h => h claimed rfl)
          (attemptDelivery_follows _ _ _)) fun _ => hrelease

end Delivery

section Tasks

theorem sendAll_follows {entries : List Dispatched} :
    Follows setup ok thread Anywhere (sendAll entries) fun _ => Anywhere := by
  induction entries with
  | nil => exact Acts.skip
  | cons dispatched rest ih =>
    exact Follows.step (fun _ => Anywhere) (fun _ _ _ => ⟨trivial, trivial⟩) fun _ => ih

theorem getPendingQueue_quiet (now : Int) (pages : Nat) (after : Option EntryID)
    (found : List Dispatched) : (getPendingQueue now pages after found).Calls Quiet := by
  induction pages generalizing after found with
  | zero => exact .next rfl fun stopped => stopped.elim
  | succ pages ih =>
    refine .next rfl fun result => ?_
    match result with
    | .error _ => trivial
    | .ok (page, none) => trivial
    | .ok (page, some key) => exact ih (some key) (found ++ page)

theorem sweepPendingEntries_follows (pages : Nat) :
    Follows setup ok thread Anywhere (sweepPendingEntries setup pages) fun _ => Anywhere := by
  have hsweep : Follows setup ok thread Anywhere (do
      let now ← invoke .now
      let entries ← getPendingQueue now pages none []
      sendAll entries) fun _ => Anywhere := by
    refine Follows.pass rfl (fun _ _ h => h) fun now => ?_
    exact Acts.bind _ (Follows.of_quiet (fun _ _ h => h) (getPendingQueue_quiet _ _ _ _))
      fun entries => sendAll_follows
  refine Follows.pass rfl (fun _ _ h => h) fun _ => ?_
  split
  · exact Follows.pass rfl (fun _ _ h => h) fun _ => Follows.pass rfl (fun _ _ h => h)
      fun _ => hsweep
  · exact hsweep

-- An enqueue call that fails has taken everything back when it returns.
def Outcome.Settled : Outcome → List (Event sig) → Prop
  | .enqueued (.error _), own => ∀ base ∈ issued own, phase own = .dropped base
  | _, _ => True

theorem settled_of_retracted {result : Except QueueError Nat} {own : List (Event sig)}
    (h : Retracted [] result own) : (Outcome.enqueued result).Settled own := by
  cases result with
  | ok _ => trivial
  | error err =>
    intro base hbase
    rcases h err rfl base hbase with hnone | hdropped
    · cases hnone
    · exact hdropped

theorem task_follows (task : Task) :
    Follows setup ok thread (· = []) (task.program setup) Outcome.Settled := by
  have hfinish : ∀ {program : Prog Unit},
      Follows setup ok thread Anywhere program (fun _ => Anywhere) →
      Follows setup ok thread (· = []) (do program; pure .finished) Outcome.Settled :=
    fun h => Acts.bind _ (Acts.entails _ (fun _ _ => trivial) h) fun _ => Acts.done fun _ _ => trivial
  cases task with
  | enqueue fromAddr rcpts message =>
    refine Acts.bind (Retracted []) (Acts.entails _ ?_ (enqueue_follows _ _ _))
      fun _ => Acts.done fun _ h => settled_of_retracted h
    rintro own rfl
    rfl
  | enqueueWithDSN fromAddr rcpts message =>
    refine Acts.bind (Retracted []) (Acts.entails _ ?_ (enqueueWithDSN_follows _ _ _))
      fun _ => Acts.done fun _ h => settled_of_retracted h
    rintro own rfl
    rfl
  | sweep pages => exact hfinish (sweepPendingEntries_follows pages)
  | worker pages =>
    exact hfinish (Follows.pass rfl (fun _ _ h => h) fun _ => deliver_follows pages _)
  | timer =>
    refine hfinish (Follows.pass rfl (fun _ _ h => h) fun dispatched => ?_)
    exact Follows.step (fun _ => Anywhere) (fun _ _ _ => ⟨trivial, trivial⟩)
      fun _ => Acts.skip
  | retry id => exact hfinish (retryEntry_follows id)
  | drop pages id =>
    refine Acts.bind _ (Acts.entails _ ?_ (dropEntry_follows pages id))
      fun _ => Acts.done fun _ _ => trivial
    rintro own rfl
    rfl

end Tasks

section Runs

variable {tasks : List Task} {cfg : Config sig State Outcome}

theorem pool_follows (i : Nat) (program : Prog Outcome)
    (hi : (begin setup tasks).pool[i]? = some program) :
    Follows setup ok i (· = ownLog i (begin setup tasks).world.log) program Outcome.Settled := by
  obtain ⟨task, _, rfl⟩ := List.mem_map.mp (List.mem_of_getElem? hi)
  exact task_follows task

theorem run_orderly (hrun : Run (machine setup) ok (begin setup tasks) cfg) (thread : Nat) :
    Orderly (ownLog thread cfg.world.log) :=
  hrun.acts (fun _ own => Orderly own) (fun _ => trivial)
    (fun i program hi => Acts.weaken (pool_follows i program hi) fun _ _ _ => trivial) thread

theorem run_invariant (hrun : Run (machine setup) ok (begin setup tasks) cfg)
    (inv : World sig State → Prop)
    (hstep : ∀ w thread c choice result w', ok w thread c choice →
      w.exec (machine setup) thread c choice = some (result, w') →
      Proper (ownLog thread w.log) c → inv w → inv w')
    (hinv : inv ⟨State.empty, []⟩) : inv cfg.world := by
  refine hrun.invariant_acts (fun _ own => Orderly own) (fun _ => trivial)
    (fun i program hi => Acts.weaken (pool_follows i program hi) fun _ _ _ => trivial) inv ?_ hinv
  intro w thread c choice result w' hok hexec hgood
  rw [ownLog_exec hexec] at hgood
  exact hstep w thread c choice result w' hok hexec hgood.1

end Runs

end UMail.Queue
