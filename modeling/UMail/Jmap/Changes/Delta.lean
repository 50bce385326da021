import UMail.Jmap.Changes.Pruned
import UMail.Jmap.Emails

namespace UMail.Jmap

open UMail.Storage
open Utf8 (validText)

section Model

def StoreCall.Creates (db : Database) (user : Bytes) : StoreCall → Prop
  | .storeMessageMetadata mailbox uid metadata =>
    db.row user mailbox uid = none ∧ IsContentHash metadata.messageID
  | .deleteMessage _ _ => True
  | _ => False

def StoreStep.Legal (user : Bytes) (store : Store) (step : StoreStep) : Prop :=
  Journalling step.env ∧ step.call.Creates store.db user

abbrev Legal (user : Bytes) (steps : List StoreStep) (store : Store) : Prop :=
  Sequence.RunAll (StoreStep.apply user) (StoreStep.Legal user) steps store

def rowChanges (user : Bytes) (steps : List StoreStep) (store : Store) : List Change :=
  (written user steps store).filter (·.type = .email)

def lastMailbox (changes : List Change) (id : Bytes) (kind : ChangeKind) : Option Bytes :=
  ((changes.filter fun c => c.id = id ∧ c.kind = kind).getLast?).map Change.mailbox

-- A client that applies the lists has the new ids, and knows of every id whose
-- mailboxes are others.
structure CorrectDelta (db db' : Database) (user : Bytes) (response : ChangesResponse) : Prop where
  ids : ∀ id, id ∈ emailIds db' user ↔
    id ∈ emailIds db user ∧ id ∉ response.destroyed ∨ id ∈ response.created
  updated : ∀ id ∈ emailIds db user, id ∈ emailIds db' user →
    mailboxesOf db user id ≠ mailboxesOf db' user id → id ∈ response.updated

-- What the steps between two states may do to one id.
structure Tidy (db db' : Database) (user : Bytes) (changes : List Change) (id : Bytes) : Prop where
  appeared : id ∉ emailIds db user → id ∈ emailIds db' user → lastMailbox changes id .destroyed = none
  vanished : id ∈ emailIds db user → id ∉ emailIds db' user → lastMailbox changes id .created = none
  stayed : id ∈ emailIds db user → id ∈ emailIds db' user →
    lastMailbox changes id .destroyed ≠ none → lastMailbox changes id .created ≠ none
  moved : id ∈ emailIds db user → id ∈ emailIds db' user →
    mailboxesOf db user id ≠ mailboxesOf db' user id →
      lastMailbox changes id .created ≠ none ∧ lastMailbox changes id .destroyed ≠ none ∧
        lastMailbox changes id .created ≠ lastMailbox changes id .destroyed

end Model

section Folds

def foldOf (id : Bytes) (entries : List ChangeEntry) : Fold :=
  (entries.filter (·.id = id)).foldl Fold.add .empty

theorem foldOf_append (id : Bytes) (entries : List ChangeEntry) (e : ChangeEntry) :
    foldOf id (entries ++ [e]) = if e.id = id then (foldOf id entries).add e else foldOf id entries := by
  unfold foldOf
  by_cases h : e.id = id
  · simp [h]
  · simp [h]

variable {entries : List ChangeEntry} {id : Bytes}

theorem foldOf_of_not_mem (h : ∀ e ∈ entries, e.id ≠ id) : foldOf id entries = .empty := by
  unfold foldOf
  rw [List.filter_eq_nil_iff.mpr fun e he => by simpa using h e he]
  rfl

theorem foldEntries_append (e : ChangeEntry) :
    foldEntries (entries ++ [e]) = addEntry (foldEntries entries) e := List.foldl_append

theorem mem_addEntry {folds : List (Bytes × Fold)} {e : ChangeEntry} {f : Fold} :
    (id, f) ∈ addEntry folds e ↔ if e.id = id then (∃ g, (id, g) ∈ folds ∧ f = g.add e) ∨
      (∀ g, (id, g) ∉ folds) ∧ f = Fold.empty.add e else (id, f) ∈ folds := by
  unfold addEntry
  grind

theorem mem_foldEntries (id : Bytes) (f : Fold) :
    (id, f) ∈ foldEntries entries ↔ (∃ e ∈ entries, e.id = id) ∧ f = foldOf id entries := by
  induction entries using List.reverseRecOn generalizing id f with
  | nil => simp [foldEntries]
  | append_singleton entries e ih =>
    rw [foldEntries_append, mem_addEntry, foldOf_append]
    simp only [ih]
    split_ifs with hid
    · by_cases hcame : ∃ e' ∈ entries, e'.id = id
      · simp [hcame, hid]
      · have hnew := foldOf_of_not_mem fun e' he' heq => hcame ⟨e', he', heq⟩
        simp [hcame, hid, hnew]
    · simp [hid]

theorem mem_listedAs {kind : ChangeKind} :
    id ∈ listedAs kind (foldEntries entries) ↔ (foldOf id entries).listed = some kind := by
  unfold listedAs
  simp only [List.mem_map, List.mem_filter, decide_eq_true_eq]
  constructor
  · rintro ⟨⟨_, f⟩, ⟨hmem, hlisted⟩, rfl⟩
    obtain ⟨_, rfl⟩ := (mem_foldEntries _ _).mp hmem
    exact hlisted
  · intro hlisted
    refine ⟨(id, foldOf id entries), ⟨(mem_foldEntries _ _).mpr ⟨?_, rfl⟩, hlisted⟩, rfl⟩
    by_contra hnone
    rw [foldOf_of_not_mem fun e he heq => hnone ⟨e, he, heq⟩] at hlisted
    cases hlisted

theorem lastMailbox_append (changes : List Change) (c : Change) (id : Bytes) (kind : ChangeKind) :
    lastMailbox (changes ++ [c]) id kind =
      if c.id = id ∧ c.kind = kind then some c.mailbox else lastMailbox changes id kind := by
  unfold lastMailbox
  rw [List.filter_append]
  by_cases h : c.id = id ∧ c.kind = kind
  · simp [h]
  · rw [List.filter_cons_of_neg (by simpa using h), if_neg h, List.filter_nil, List.append_nil]

theorem foldOf_eq (id : Bytes) : let last := lastMailbox (entries.map changeOf) id
    foldOf id entries = ⟨(last .created).isSome, (last .updated).isSome, (last .destroyed).isSome,
      (last .created).getD [], (last .destroyed).getD []⟩ := by
  induction entries using List.reverseRecOn with
  | nil => rfl
  | append_singleton entries e ih =>
    rw [foldOf_append, List.map_append, List.map_singleton]
    simp only [lastMailbox_append, changeOf]
    by_cases hid : e.id = id
    · rw [ih, Fold.add]
      cases hkind : e.kind <;> simp [hid]
    · rw [ih]
      simp [hid]

end Folds

section Rows

variable {user : Bytes} {store : Store} {step : StoreStep} {steps : List StoreStep}

structure Effect (db db' : Database) (user id : Bytes) (made : List Change) : Prop where
  keeps : (∀ c ∈ made, c.id = id → c.kind ≠ .destroyed) →
    mailboxesOf db user id ⊆ mailboxesOf db' user id ∧
      ∀ c ∈ made, c.id = id → c.mailbox ∈ mailboxesOf db' user id
  gets : (∀ c ∈ made, c.id = id → c.kind ≠ .created) → mailboxesOf db' user id ⊆ mailboxesOf db user id
  hashes : ∀ c ∈ made, IsContentHash c.id ∧ c.kind ≠ .updated

theorem Effect.same {db db' : Database} {id : Bytes} {made : List Change}
    (h : flagsIn db' user id = flagsIn db user id) (hother : ∀ c ∈ made, c.id ≠ id)
    (hhashes : ∀ c ∈ made, IsContentHash c.id ∧ c.kind ≠ .updated) : Effect db db' user id made := by
  have hsame : mailboxesOf db' user id = mailboxesOf db user id := by rw [mailboxesOf, h, mailboxesOf]
  refine ⟨fun _ => ⟨hsame.symm.subset, fun c hc hid => absurd hid (hother c hc)⟩, fun _ => hsame.subset, ?_⟩
  exact hhashes

theorem effect_step (h : step.Legal user store) (hhashed : Hashed store.db user) (id : Bytes) :
    Effect store.db (step.apply user store).db user id
      ((step.changes user store).filter (·.type = .email)) := by
  obtain ⟨env, call⟩ := step
  rw [db_apply]
  by_cases hfault : env.env.fault = true
  · have hnone : StoreStep.changes user ⟨env, call⟩ store = [] := by
      cases call with
      | storeMessageMetadata | deleteMessage =>
        simp [StoreStep.changes, StoreCall.op, Op.changes, Database.storeMessageMetadata,
          Database.deleteMessage, Database.update, hfault, succeeded]
      | storeFlags | createMailbox | deleteMailbox | renameMailbox => exact absurd h.2 not_false
    rw [apply_of_fault hfault, hnone]
    exact .same rfl (List.forall_mem_nil _) (List.forall_mem_nil _)
  rw [Bool.not_eq_true] at hfault
  cases call with
  | storeMessageMetadata mailbox uid metadata =>
    obtain ⟨hnew, hhash⟩ := h.2
    rw [StoreStep.changes, StoreCall.op, changes_store hfault hhash.1, hnew]
    have hhashes : ∀ c ∈ [(⟨.email, .created, metadata.messageID, mailbox⟩ : Change)],
        IsContentHash c.id ∧ c.kind ≠ .updated :=
      List.forall_mem_singleton.mpr ⟨hhash, show ChangeKind.created ≠ .updated by decide⟩
    by_cases hid : id = metadata.messageID
    · subst hid
      refine ⟨fun _ => ⟨?_, List.forall_mem_singleton.mpr fun _ => ?_⟩, fun hnone => ?_, hhashes⟩
      · rintro box ⟨flags, uid', previous, hrow, hprevious⟩
        refine ⟨flags, uid', previous, ?_, hprevious⟩
        rw [row_store_apply hfault, if_neg, hrow]
        rintro ⟨rfl, rfl⟩
        rw [hnew] at hrow
        cases hrow
      · exact ⟨_, uid, _, (row_store_apply hfault _ _).trans (if_pos ⟨rfl, rfl⟩), rfl, rfl⟩
      · exact absurd rfl (hnone _ (List.mem_singleton_self _) rfl)
    · refine .same (flagsIn_store hfault (fun previous hrow => ?_) hid)
        (List.forall_mem_singleton.mpr (Ne.symm hid)) hhashes
      rw [hnew] at hrow
      cases hrow
  | deleteMessage mailbox uid =>
    rw [StoreStep.changes, StoreCall.op]
    cases hrow : store.db.row user mailbox uid with
    | none =>
      have hnone : (Op.deleteMessage user mailbox uid).changes env.env store.db = [] := by
        simp [Op.changes, hrow, deletedChanges, MessageMetadata.empty]
      rw [hnone]
      refine .same (flagsIn_delete hfault fun previous hget => ?_) (List.forall_mem_nil _)
        (List.forall_mem_nil _)
      rw [hrow] at hget
      cases hget
    | some metadata =>
      have hhash := hhashed _ ⟨mailbox, _, uid, metadata, hrow, rfl, rfl⟩
      rw [changes_delete hfault hrow hhash.1]
      have hhashes : ∀ c ∈ [(⟨.email, .destroyed, metadata.messageID, mailbox⟩ : Change)],
          IsContentHash c.id ∧ c.kind ≠ .updated :=
        List.forall_mem_singleton.mpr ⟨hhash, show ChangeKind.destroyed ≠ .updated by decide⟩
      by_cases hid : id = metadata.messageID
      · refine ⟨fun hnone => ?_, fun _ => ?_, hhashes⟩
        · exact absurd rfl (hnone _ (List.mem_singleton_self _) hid.symm)
        · rintro box ⟨flags, uid', previous, hget, hprevious⟩
          rw [row_delete_apply hfault] at hget
          split_ifs at hget
          exact ⟨flags, uid', previous, hget, hprevious⟩
      · refine .same (flagsIn_delete hfault fun previous hget => ?_)
          (List.forall_mem_singleton.mpr (Ne.symm hid)) hhashes
        rw [hrow] at hget
        cases hget
        exact Ne.symm hid
  | storeFlags | createMailbox | deleteMailbox | renameMailbox => exact absurd h.2 not_false

theorem StoreStep.Legal.traced (h : step.Legal user store) : step.Traced user store := by
  obtain ⟨env, call⟩ := step
  refine ⟨h.1, ?_⟩
  cases call with
  | storeMessageMetadata mailbox uid metadata =>
    refine ⟨h.2.2, fun previous hrow => ?_⟩
    rw [h.2.1] at hrow
    cases hrow
  | deleteMessage mailbox uid => trivial
  | storeFlags | createMailbox | deleteMailbox | renameMailbox => exact absurd h.2 not_false

theorem allTraced_of_legal (h : Legal user steps store) : AllTraced user steps store := by
  induction steps generalizing store with
  | nil => trivial
  | cons step steps ih => exact ⟨h.1.traced, ih h.2⟩

-- Over a run, an Email that is not removed keeps its mailboxes and gets those
-- where it is created, and one that is not created gets none.
theorem effect_run (h : Legal user steps store) (hhashed : Hashed store.db user) (id : Bytes) :
    Effect store.db (runStore user steps store).db user id (rowChanges user steps store) := by
  induction steps generalizing store with
  | nil => exact .same rfl (List.forall_mem_nil _) (List.forall_mem_nil _)
  | cons step steps ih =>
    have hstep := effect_step h.1 hhashed id
    have hlater := ih h.2 (hashed_step h.1.traced.2 hhashed)
    have hmade : rowChanges user (step :: steps) store =
        (step.changes user store).filter (·.type = .email) ++
          rowChanges user steps (step.apply user store) := List.filter_append ..
    rw [hmade]
    refine ⟨fun hkept => ?_, fun hnone => ?_, fun c hc => ?_⟩
    · obtain ⟨hsub, hnew⟩ := hstep.keeps fun c hc => hkept c (List.mem_append_left _ hc)
      obtain ⟨hsub', hnew'⟩ := hlater.keeps fun c hc => hkept c (List.mem_append_right _ hc)
      refine ⟨hsub.trans hsub', fun c hc hid => ?_⟩
      rcases List.mem_append.mp hc with hc | hc
      · exact hsub' (hnew c hc hid)
      · exact hnew' c hc hid
    · exact (hlater.gets fun c hc => hnone c (List.mem_append_right _ hc)).trans
        (hstep.gets fun c hc => hnone c (List.mem_append_left _ hc))
    · rcases List.mem_append.mp hc with hc | hc
      · exact hstep.hashes c hc
      · exact hlater.hashes c hc

end Rows

section Window

variable {user : Bytes}

-- What is known of the later part of a run from the empty store.
theorem grown_window (huser : user ≠ []) {before window : List StoreStep}
    (hbefore : AllTraced user before .empty) (hwindow : AllTraced user window (runStore user before .empty))
    (hcalls : 2 * (before.length + window.length) < 2 ^ 64) :
    Hashed (runStore user before .empty).db user ∧
    ((runStore user before .empty).changes.journal user).Numbered ∧
    Grown ((runStore user before .empty).changes.journal user)
      ((runStore user window (runStore user before .empty)).changes.journal user)
      (written user window (runStore user before .empty)) := by
  obtain ⟨hnumbered, hzero⟩ := numbered_store_empty
  obtain ⟨hgrown, hlength⟩ := grown_run huser hbefore hnumbered (by omega)
  have hsequence := hgrown.sequence
  obtain ⟨hgrown', _⟩ := grown_run huser hwindow hgrown.numbered (by omega)
  exact ⟨hashed_run hbefore hashed_empty, hgrown.numbered, hgrown'⟩

-- An answer without more changes is folded from all that was written.
theorem handleChanges_window {changes changes' : Changes} {written : List Change} {type : ChangeType}
    (hgrown : Grown (changes.journal user) (changes'.journal user) written)
    (hnumbered : (changes.journal user).Numbered) {props : Bool} {args : ChangesArgs}
    {response : ChangesResponse}
    (hsince : Value.asString args.sinceState = some (currentChangeState changes user))
    (hanswer : handleChanges changes' user type props args = .ok response)
    (hmore : response.hasMoreChanges = false) :
    ∃ entries, entries.map changeOf = (written.filter (·.type = type)).map asRead ∧
      response.created = listedAs .created (foldEntries entries) ∧
      response.updated = listedAs .updated (foldEntries entries) ∧
      response.destroyed = listedAs .destroyed (foldEntries entries) := by
  have htoken : args.token = (changes.journal user).sequence := by
    rw [ChangesArgs.token, hsince, Option.getD_some, currentChangeState, parseChangeState_formatState]
  obtain ⟨page, hpage, hanswer⟩ := Fallible.ok_of_bind hanswer
  cases hanswer
  obtain ⟨max, rfl⟩ := readChanges_ok hpage
  rw [htoken, getChangesSince_eq hgrown.numbered] at hmore ⊢
  simp only [decide_eq_false_iff_not, Nat.not_lt] at hmore
  have hall := List.take_of_length_le hmore
  exact ⟨_, hgrown.after_since hnumbered type,
    congrArg (fun entries => listedAs .created (foldEntries entries)) hall,
    congrArg (fun entries => listedAs .updated (foldEntries entries)) hall,
    congrArg (fun entries => listedAs .destroyed (foldEntries entries)) hall⟩

end Window

section Lists

variable {user id : Bytes}

theorem lastMailbox_ne_none {changes : List Change} {kind : ChangeKind} :
    lastMailbox changes id kind ≠ none ↔ ∃ c ∈ changes, c.id = id ∧ c.kind = kind := by
  unfold lastMailbox
  simp

theorem listed_foldOf {entries : List ChangeEntry}
    (hupdated : lastMailbox (entries.map changeOf) id .updated = none) :
    let last := lastMailbox (entries.map changeOf) id
    ((foldOf id entries).listed = some .created ↔ last .created ≠ none ∧ last .destroyed = none) ∧
    ((foldOf id entries).listed = some .destroyed ↔ last .destroyed ≠ none ∧ last .created = none) ∧
    ((foldOf id entries).listed = some .updated ↔
      last .created ≠ none ∧ last .destroyed ≠ none ∧ last .created ≠ last .destroyed) := by
  rw [foldOf_eq]
  simp only [hupdated]
  cases hcreated : lastMailbox (entries.map changeOf) id .created with
  | none =>
    cases hdestroyed : lastMailbox (entries.map changeOf) id .destroyed with
    | none => simp [Fold.listed, Fold.moved]
    | some destroyedIn => simp [Fold.listed, Fold.moved]
  | some createdIn =>
    rcases hdestroyed : lastMailbox (entries.map changeOf) id .destroyed with _ | destroyedIn
    · simp [Fold.listed, Fold.moved]
    by_cases hsame : createdIn = destroyedIn
    · simp [Fold.listed, Fold.moved, hsame]
    · simp [Fold.listed, Fold.moved, hsame]

variable {store : Store} {window : List StoreStep}

theorem lastMailbox_asRead (h : Legal user window store) (hhashed : Hashed store.db user)
    (kind : ChangeKind) : lastMailbox ((rowChanges user window store).map asRead) id kind ≠ none ↔
      ∃ c ∈ rowChanges user window store, c.id = id ∧ c.kind = kind := by
  rw [lastMailbox_ne_none]
  simp only [List.mem_map, exists_exists_and_eq_and]
  refine exists_congr fun c => and_congr_right fun hc => ?_
  rw [asRead, ((effect_run h hhashed id).hashes c hc).1.2]

theorem lists_logic {before after created destroyed : Prop} (happeared : ¬ before → after → created)
    (hvanished : before → ¬ after → destroyed) (hpresent : created → ¬ destroyed → after) :
    ((¬ before → after → ¬ destroyed) ∧ (before → ¬ after → ¬ created) ∧
      (before → after → destroyed → created)) ↔
    (after ↔ before ∧ ¬ (destroyed ∧ ¬ created) ∨ created ∧ ¬ destroyed) := by
  tauto

-- The condition of one id is what its lists have to be.
theorem tidy_iff (h : Legal user window store) (hhashed : Hashed store.db user) (id : Bytes) :
    let db := store.db
    let db' := (runStore user window store).db
    let last := lastMailbox ((rowChanges user window store).map asRead) id
    Tidy db db' user ((rowChanges user window store).map asRead) id ↔
      (id ∈ emailIds db' user ↔ id ∈ emailIds db user ∧ ¬ (last .destroyed ≠ none ∧ last .created = none) ∨
        last .created ≠ none ∧ last .destroyed = none) ∧
      (id ∈ emailIds db user → id ∈ emailIds db' user → mailboxesOf db user id ≠ mailboxesOf db' user id →
        last .created ≠ none ∧ last .destroyed ≠ none ∧ last .created ≠ last .destroyed) := by
  intro db db' last
  have hmade : ∀ kind, last kind ≠ none ↔ ∃ c ∈ rowChanges user window store, c.id = id ∧ c.kind = kind :=
    lastMailbox_asRead h hhashed
  have hnever : ∀ {kind}, last kind = none → ∀ c ∈ rowChanges user window store, c.id = id → c.kind ≠ kind :=
    fun hnone c hc hid hkind => (hmade _).mpr ⟨c, hc, hid, hkind⟩ hnone
  have heffect := effect_run h hhashed id
  have happeared : id ∉ emailIds db user → id ∈ emailIds db' user → last .created ≠ none :=
    fun hbefore ⟨box, hbox⟩ hnone => hbefore ⟨box, heffect.gets (hnever hnone) hbox⟩
  have hvanished : id ∈ emailIds db user → id ∉ emailIds db' user → last .destroyed ≠ none :=
    fun ⟨box, hbox⟩ hafter hnone => hafter ⟨box, (heffect.keeps (hnever hnone)).1 hbox⟩
  have hpresent : last .created ≠ none → last .destroyed = none → id ∈ emailIds db' user := by
    intro hcreated hnone
    obtain ⟨c, hc, hid, _⟩ := (hmade .created).mp hcreated
    exact ⟨_, (heffect.keeps (hnever hnone)).2 c hc hid⟩
  have hlists := lists_logic happeared hvanished fun hcreated => hpresent hcreated ∘ not_ne_iff.mp
  simp only [not_ne_iff] at hlists
  rw [← hlists]
  exact ⟨fun h => ⟨⟨h.appeared, h.vanished, h.stayed⟩, h.moved⟩,
    fun h => ⟨h.1.1, h.1.2.1, h.1.2.2, h.2⟩⟩

end Lists

section Copies

def quietCall : CallEnv := ⟨⟨0, false, false⟩, ⟨0, false⟩, ⟨0, false⟩⟩

def storeCopy (mailbox : Bytes) : StoreStep :=
  ⟨quietCall, .storeMessageMetadata mailbox 1 { MessageMetadata.empty with messageID := bytes "aa" }⟩

def deleteCopy (mailbox : Bytes) : StoreStep := ⟨quietCall, .deleteMessage mailbox 1⟩

def sinceState (state : Bytes) : ChangesArgs := ⟨none, some (.string state), none⟩

def copied (removed : Bytes) : List StoreStep :=
  [storeCopy (bytes "INBOX"), storeCopy (bytes "Archive"), deleteCopy removed]

-- The client is told that an Email is destroyed of which one copy is left, and
-- one that is delivered and moved is never told of.
theorem changes_delta_fails_copies : (∀ removed, Legal (bytes "u") (copied removed) .empty) ∧
    (∃ response, handleChanges (runStore (bytes "u") (copied (bytes "Archive")) .empty).changes (bytes "u")
        .email false (sinceState (bytes "2")) = .ok response ∧ response.hasMoreChanges = false ∧
      currentChangeState (runStore (bytes "u") ((copied []).take 2) .empty).changes (bytes "u") = bytes "2" ∧
      ¬ CorrectDelta (runStore (bytes "u") ((copied []).take 2) .empty).db
        (runStore (bytes "u") (copied (bytes "Archive")) .empty).db (bytes "u") response) ∧
    ∃ response, handleChanges (runStore (bytes "u") (copied (bytes "INBOX")) .empty).changes (bytes "u")
        .email false (sinceState (bytes "0")) = .ok response ∧ response.hasMoreChanges = false ∧
      ¬ CorrectDelta Store.empty.db (runStore (bytes "u") (copied (bytes "INBOX")) .empty).db (bytes "u")
        response := by
  have hstored : ∀ removed, Legal (bytes "u") (copied removed) .empty := fun removed =>
    ⟨⟨⟨rfl, rfl⟩, by decide, by decide, by decide⟩, ⟨⟨rfl, rfl⟩, by decide, by decide, by decide⟩,
      ⟨⟨rfl, rfl⟩, trivial⟩, trivial⟩
  refine ⟨hstored,
    ⟨⟨[], bytes "2", bytes "3", false, [], [], [bytes "aa"], false⟩, by decide, rfl, by decide, fun h => ?_⟩,
    ⟨⟨[], bytes "0", bytes "3", false, [], [bytes "aa"], [], false⟩, by decide, rfl, fun h => ?_⟩⟩
  · have hstill : bytes "aa" ∈ emailIds (runStore (bytes "u") (copied (bytes "Archive")) .empty).db
        (bytes "u") := ⟨bytes "INBOX", [], 1,
          { MessageMetadata.empty with messageID := bytes "aa" }, by decide, rfl, rfl⟩
    rcases (h.ids (bytes "aa")).mp hstill with ⟨_, hkept⟩ | hcreated
    · exact hkept (by decide)
    · revert hcreated
      decide
  · have hnow : bytes "aa" ∈ emailIds (runStore (bytes "u") (copied (bytes "INBOX")) .empty).db
        (bytes "u") := ⟨bytes "Archive", [], 1,
          { MessageMetadata.empty with messageID := bytes "aa" }, by decide, rfl, rfl⟩
    rcases (h.ids (bytes "aa")).mp hnow with ⟨hbefore, _⟩ | hcreated
    · obtain ⟨box, flags, uid, metadata, hrow, _⟩ := hbefore
      simp [Store.empty, Database.empty, Database.row, Database.messagesOf] at hrow
    · revert hcreated
      decide

end Copies

-- The answer is a correct delta exactly if no Email was both created and
-- removed between the two states in a way that the fold cannot tell.
theorem changes_delta_iff (user : Bytes) (huser : user ≠ []) (before window : List StoreStep)
    (hlegal : Legal user (before ++ window) .empty) (hcalls : 2 * (before ++ window).length < 2 ^ 64)
    (props : Bool) (args : ChangesArgs) (response : ChangesResponse)
    (hsince : Value.asString args.sinceState =
      some (currentChangeState (runStore user before .empty).changes user))
    (hanswer : handleChanges (runStore user (before ++ window) .empty).changes user .email props args =
      .ok response)
    (hmore : response.hasMoreChanges = false) :
    CorrectDelta (runStore user before .empty).db (runStore user (before ++ window) .empty).db user response ↔
      ∀ id, Tidy (runStore user before .empty).db (runStore user (before ++ window) .empty).db user
        ((rowChanges user window (runStore user before .empty)).map asRead) id := by
  have hbefore : Legal user before .empty := (Sequence.RunAll.append.mp hlegal).1
  have hwindow : Legal user window (runStore user before .empty) := (Sequence.RunAll.append.mp hlegal).2
  have hrun : runStore user (before ++ window) .empty =
      runStore user window (runStore user before .empty) := Sequence.run_append ..
  rw [hrun] at hanswer ⊢
  rw [List.length_append] at hcalls
  obtain ⟨hhashed, hnumbered, hgrown⟩ :=
    grown_window huser (allTraced_of_legal hbefore) (allTraced_of_legal hwindow) hcalls
  obtain ⟨entries, hentries, hcreated, hupdated, hdestroyed⟩ :=
    handleChanges_window hgrown hnumbered hsince hanswer hmore
  rw [← rowChanges] at hentries
  have hnever : ∀ id, lastMailbox (entries.map changeOf) id .updated = none := by
    intro id
    by_contra hsome
    rw [hentries] at hsome
    obtain ⟨c, hc, _, hkind⟩ := (lastMailbox_asRead hwindow hhashed .updated).mp hsome
    exact ((effect_run hwindow hhashed id).hashes c hc).2 hkind
  have hlists := fun id => listed_foldOf (hnever id)
  simp only [← mem_listedAs, ← hcreated, ← hupdated, ← hdestroyed, hentries] at hlists
  constructor
  · intro hcorrect id
    obtain ⟨hlistC, hlistD, hlistU⟩ := hlists id
    refine (tidy_iff hwindow hhashed id).mpr ⟨?_, ?_⟩
    · rw [← hlistC, ← hlistD]
      exact hcorrect.ids id
    · rw [← hlistU]
      exact hcorrect.updated id
  · intro htidy
    refine ⟨fun id => ?_, fun id => ?_⟩
    · obtain ⟨hlistC, hlistD, _⟩ := hlists id
      rw [hlistC, hlistD]
      exact ((tidy_iff hwindow hhashed id).mp (htidy id)).1
    · rw [(hlists id).2.2]
      exact ((tidy_iff hwindow hhashed id).mp (htidy id)).2

def twoCopies : List StoreStep := [storeCopy (bytes "INBOX"), storeCopy (bytes "Work")]

def movedCopy : List StoreStep := [storeCopy (bytes "Archive"), deleteCopy (bytes "INBOX")]

theorem changes_delta_moved : ∃ response,
    handleChanges (runStore (bytes "u") (twoCopies ++ movedCopy) .empty).changes (bytes "u") .email false
      (sinceState (bytes "2")) = .ok response ∧ response.updated = [bytes "aa"] ∧
    CorrectDelta (runStore (bytes "u") twoCopies .empty).db
      (runStore (bytes "u") (twoCopies ++ movedCopy) .empty).db (bytes "u") response := by
  have hlegal : Legal (bytes "u") (twoCopies ++ movedCopy) .empty :=
    ⟨⟨⟨rfl, rfl⟩, by decide, by decide, by decide⟩, ⟨⟨rfl, rfl⟩, by decide, by decide, by decide⟩,
      ⟨⟨rfl, rfl⟩, by decide, by decide, by decide⟩, ⟨⟨rfl, rfl⟩, trivial⟩, trivial⟩
  refine ⟨⟨[], bytes "2", bytes "4", false, [], [bytes "aa"], [], false⟩, by decide, rfl, ?_⟩
  refine (changes_delta_iff (bytes "u") (by decide) _ _ hlegal (by decide) false
    (sinceState (bytes "2")) _ (by decide) (by decide) rfl).mpr fun id => ?_
  obtain ⟨hbefore, hwindow⟩ := Sequence.RunAll.append.mp hlegal
  have hhashed := hashed_run (allTraced_of_legal hbefore) hashed_empty
  have hwritten : ∀ c ∈ rowChanges (bytes "u") movedCopy (runStore (bytes "u") twoCopies .empty),
      c.id = bytes "aa" := by
    decide
  by_cases hid : id = bytes "aa"
  · subst hid
    have hkept : ∀ {store : Store}, store.db.row (bytes "u") (bytes "Work") 1 =
        some { MessageMetadata.empty with messageID := bytes "aa" } →
        bytes "aa" ∈ emailIds store.db (bytes "u") :=
      fun hrow => ⟨bytes "Work", [], 1, _, hrow, rfl, rfl⟩
    exact ⟨fun hnone => absurd (hkept (by decide)) hnone, fun _ hnone => absurd (hkept (by decide)) hnone,
      fun _ _ _ => by decide, fun _ _ _ => by decide⟩
  · have hother := fun c hc (heq : c.id = id) => hid (heq.symm.trans (hwritten c hc))
    have heffect := effect_run hwindow hhashed id
    have hsame := (heffect.keeps fun c hc heq => absurd heq (hother c hc)).1.antisymm
      (heffect.gets fun c hc heq => absurd heq (hother c hc))
    have hlast : ∀ kind, lastMailbox ((rowChanges (bytes "u") movedCopy
        (runStore (bytes "u") twoCopies .empty)).map asRead) id kind = none := by
      intro kind
      by_contra hsome
      obtain ⟨c, hc, heq, _⟩ := (lastMailbox_asRead hwindow hhashed kind).mp hsome
      exact hother c hc heq
    exact ⟨fun _ _ => hlast _, fun _ _ => hlast _, fun _ _ h => absurd (hlast _) h,
      fun _ _ h => absurd hsame h⟩

end UMail.Jmap
