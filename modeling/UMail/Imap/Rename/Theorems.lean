import UMail.Imap.Rename
import UMail.Storage.Isolation.Theorems

namespace UMail.Imap

open UMail.Storage

def counters (record : MailboxRecord) : Option UInt32 × Option UInt64 :=
  (record.uidNext, record.highestModSeq)

structure Relocates (user : Bytes) (moves : List MailboxMove) (db db' : Database) : Prop where
  left : ∀ move ∈ moves, db'.record user move.source = none ∧ db'.messagesOf user move.source = none
  arrived : ∀ move ∈ moves, (db'.record user move.target).map counters =
      (db.record user move.source).map counters ∧
    db'.messagesOf user move.target = db.messagesOf user move.source
  others : ∀ owner box,
    (owner = user → box ∉ moves.map MailboxMove.source ∧ box ∉ moves.map MailboxMove.target) →
      db'.record owner box = db.record owner box ∧ db'.messagesOf owner box = db.messagesOf owner box
  uploads : db'.pendingUploads = db.pendingUploads

structure Movable (user : Bytes) (moves : List MailboxMove) (db : Database) : Prop where
  sources : ∀ move ∈ moves, (db.record user move.source).isSome
  targets : ∀ move ∈ moves, db.record user move.target = none
  sourcesDistinct : (moves.map MailboxMove.source).Nodup
  targetsDistinct : (moves.map MailboxMove.target).Nodup

-- What makes one of the transactions fail: a fault, or messages that are left
-- under the name of the target.
def Blocked (env : RenameEnv) (user : Bytes) (db : Database) (i : Nat) (move : MailboxMove) : Prop :=
  (env.call i).fault = true ∨ (db.messagesOf user move.target).isSome = true

section Moving

variable {env : RenameEnv} {user : Bytes} {db db' : Database} {i : Nat} {move : MailboxMove}
  {moves : List MailboxMove} {m : MailboxMove}

theorem Movable.ne (h : Movable user moves db) (hm : m ∈ moves) (hmove : move ∈ moves) :
    m.source ≠ move.target := by
  intro heq
  have hsome := h.sources m hm
  rw [heq, h.targets move hmove] at hsome
  cases hsome

theorem renameMailbox_blocked (hne : move.source ≠ move.target) (htarget : db.record user move.target = none)
    (hblocked : Blocked env user db i move) :
    ∃ e, db.renameMailbox (env.call i) user move.source move.target = (.error e, db) := by
  unfold Database.renameMailbox Database.update
  rw [if_neg hne]
  by_cases hfault : (env.call i).fault = true
  · exact ⟨.fault, by rw [if_pos hfault]⟩
  have hrows := hblocked.resolve_left hfault
  refine ⟨.destinationExists move.target, ?_⟩
  rw [if_neg hfault, renameMailboxTx, htarget, hrows]
  rfl

theorem renameMailbox_free (hne : move.source ≠ move.target)
    (hsource : (db.record user move.source).isSome) (htarget : db.record user move.target = none)
    (hfree : ¬ Blocked env user db i move) :
    ∃ db', db.renameMailbox (env.call i) user move.source move.target = (.ok (), db') ∧
      Relocates user [move] db db' := by
  obtain ⟨hfault, hrows⟩ := not_or.mp hfree
  obtain ⟨old, hold⟩ := Option.isSome_iff_exists.mp hsource
  obtain ⟨db', hdone⟩ :
      ∃ db', renameMailboxTx (env.call i).now user move.source move.target db = .ok ((), db') := by
    simp [renameMailboxTx, htarget, hrows, hold]
  refine ⟨db', ?_, ?_⟩
  · unfold Database.renameMailbox Database.update
    rw [if_neg hne, if_neg hfault, hdone]
  · have hmoves := renameMailboxTx_moves hne hdone hold
    have hfrom := hmoves user move.source
    have hto := hmoves user move.target
    simp only [hne, and_self, if_true] at hfrom hto
    refine ⟨?_, ?_, ?_, (renameMailboxTx_acl hold hdone).2⟩
    · rw [List.forall_mem_singleton]
      exact ⟨hfrom.1, hfrom.2.1⟩
    · rw [List.forall_mem_singleton, hto.1, hold]
      exact ⟨rfl, hto.2.1⟩
    · intro owner box hother
      have hsource : ¬ (user = owner ∧ move.source = box) := by
        rintro ⟨rfl, rfl⟩
        exact (hother rfl).1 (List.mem_singleton_self _)
      have htarget : ¬ (user = owner ∧ move.target = box) := by
        rintro ⟨rfl, rfl⟩
        exact (hother rfl).2 (List.mem_singleton_self _)
      have hview := hmoves owner box
      rw [if_neg hsource, if_neg htarget, if_neg hsource, if_neg htarget] at hview
      exact ⟨hview.1, hview.2.1⟩

theorem Movable.others (h : Movable user (move :: moves) db) (hone : Relocates user [move] db db')
    (hm : m ∈ moves) :
    (db'.record user m.source = db.record user m.source ∧
      db'.messagesOf user m.source = db.messagesOf user m.source) ∧
    db'.record user m.target = db.record user m.target ∧
      db'.messagesOf user m.target = db.messagesOf user m.target := by
  have hm' := List.mem_cons_of_mem move hm
  have hmove : move ∈ move :: moves := List.mem_cons_self
  have hsource : m.source ≠ move.source := by
    intro heq
    have hdistinct := h.sourcesDistinct
    rw [List.map_cons, List.nodup_cons, ← heq] at hdistinct
    exact hdistinct.1 (List.mem_map_of_mem hm)
  have htarget : m.target ≠ move.target := by
    intro heq
    have hdistinct := h.targetsDistinct
    rw [List.map_cons, List.nodup_cons, ← heq] at hdistinct
    exact hdistinct.1 (List.mem_map_of_mem hm)
  constructor
  · refine hone.others user m.source fun _ => ⟨?_, ?_⟩
    · simpa using hsource
    · simpa using h.ne hm' hmove
  · refine hone.others user m.target fun _ => ⟨?_, ?_⟩
    · simpa using (h.ne hmove hm').symm
    · simpa using htarget

theorem Movable.tail (h : Movable user (move :: moves) db) (hone : Relocates user [move] db db') :
    Movable user moves db' := by
  refine ⟨fun m hm => ?_, fun m hm => ?_, ?_, ?_⟩
  · rw [(h.others hone hm).1.1]
    exact h.sources m (List.mem_cons_of_mem move hm)
  · rw [(h.others hone hm).2.1]
    exact h.targets m (List.mem_cons_of_mem move hm)
  · exact (List.nodup_cons.mp h.sourcesDistinct).2
  · exact (List.nodup_cons.mp h.targetsDistinct).2

theorem Movable.blocked_iff (h : Movable user (move :: moves) db)
    (hone : Relocates user [move] db db') (hm : m ∈ moves) :
    Blocked env user db' i m ↔ Blocked env user db i m := by
  unfold Blocked
  rw [(h.others hone hm).2.2]

theorem Movable.source_notMem (h : Movable user (move :: moves) db) :
    move.source ∉ moves.map MailboxMove.source ∧ move.source ∉ moves.map MailboxMove.target := by
  refine ⟨(List.nodup_cons.mp h.sourcesDistinct).1, fun hmem => ?_⟩
  obtain ⟨m, hm, heq⟩ := List.mem_map.mp hmem
  exact h.ne List.mem_cons_self (List.mem_cons_of_mem move hm) heq.symm

theorem Relocates.cons {db'' : Database} (h : Movable user (move :: moves) db)
    (hone : Relocates user [move] db db') (hrest : Relocates user moves db' db'') :
    Relocates user (move :: moves) db db'' := by
  have hfree : move.target ∉ moves.map MailboxMove.source ∧ move.target ∉ moves.map MailboxMove.target := by
    refine ⟨fun hmem => ?_, (List.nodup_cons.mp h.targetsDistinct).1⟩
    obtain ⟨m, hm, heq⟩ := List.mem_map.mp hmem
    exact h.ne (List.mem_cons_of_mem move hm) List.mem_cons_self heq
  have hkeptSource := hrest.others user move.source fun _ => h.source_notMem
  have hkeptTarget := hrest.others user move.target fun _ => hfree
  refine ⟨?_, ?_, ?_, hrest.uploads.trans hone.uploads⟩
  · rw [List.forall_mem_cons, hkeptSource.1, hkeptSource.2]
    exact ⟨hone.left move List.mem_cons_self, hrest.left⟩
  · rw [List.forall_mem_cons, hkeptTarget.1, hkeptTarget.2]
    refine ⟨hone.arrived move List.mem_cons_self, fun m hm => ?_⟩
    rw [← (h.others hone hm).1.1, ← (h.others hone hm).1.2]
    exact hrest.arrived m hm
  · intro owner box hother
    simp only [List.map_cons, List.mem_cons, not_or] at hother
    have hone' := hone.others owner box fun howner => by
      simpa using ⟨(hother howner).1.1, (hother howner).2.1⟩
    have hrest' := hrest.others owner box fun howner => ⟨(hother howner).1.2, (hother howner).2.2⟩
    exact ⟨hrest'.1.trans hone'.1, hrest'.2.trans hone'.2⟩

-- The first of the moves is blocked, or it is made and the others follow.
theorem Movable.renameAll_cons (h : Movable user (move :: moves) db) :
    (Blocked env user db i move ∧ ∃ e, renameAll env user i (move :: moves) db = (.error e, db)) ∨
      ¬ Blocked env user db i move ∧ ∃ db', Relocates user [move] db db' ∧
        renameAll env user i (move :: moves) db = renameAll env user (i + 1) moves db' := by
  have hmove : move ∈ move :: moves := List.mem_cons_self
  by_cases hfirst : Blocked env user db i move
  · obtain ⟨e, hrename⟩ := renameMailbox_blocked (h.ne hmove hmove) (h.targets move hmove) hfirst
    exact .inl ⟨hfirst, e, by rw [renameAll, hrename]⟩
  · obtain ⟨db', hrename, hone⟩ := renameMailbox_free (h.ne hmove hmove) (h.sources move hmove)
      (h.targets move hmove) hfirst
    exact .inr ⟨hfirst, db', hone, by rw [renameAll, hrename]⟩

theorem renameAll_free (h : Movable user moves db)
    (hfree : ∀ k move, moves[k]? = some move → ¬ Blocked env user db (i + k) move) :
    ∃ db', renameAll env user i moves db = (.ok (), db') ∧ Relocates user moves db db' := by
  induction moves generalizing i db with
  | nil => exact ⟨db, rfl, by simp, by simp, fun _ _ _ => ⟨rfl, rfl⟩, rfl⟩
  | cons move moves ih =>
    rcases h.renameAll_cons with ⟨hfirst, _⟩ | ⟨-, db₁, hone, hall⟩
    · exact absurd hfirst (hfree 0 move rfl)
    obtain ⟨db', hmoved, hrest⟩ := @ih db₁ (i + 1) (h.tail hone) fun k m hm => by
      rw [h.blocked_iff hone (List.mem_of_getElem? hm), Nat.add_right_comm]
      exact hfree (k + 1) m hm
    exact ⟨db', hall.trans hmoved, .cons h hone hrest⟩

theorem renameAll_blocked (h : Movable user moves db)
    (hblocked : ∃ k move, moves[k]? = some move ∧ Blocked env user db (i + k) move) :
    ∃ e db', renameAll env user i moves db = (.error e, db') := by
  induction moves generalizing i db with
  | nil =>
    obtain ⟨k, move, hmove, -⟩ := hblocked
    cases hmove
  | cons move moves ih =>
    rcases h.renameAll_cons with ⟨_, e, hall⟩ | ⟨hfirst, db₁, hone, hall⟩
    · exact ⟨e, db, hall⟩
    rw [hall]
    refine ih (h.tail hone) ?_
    obtain ⟨k, m, hm, hblocked⟩ := hblocked
    cases k with
    | zero =>
      cases hm
      exact absurd hblocked hfirst
    | succ k =>
      refine ⟨k, m, hm, ?_⟩
      rw [h.blocked_iff hone (List.mem_of_getElem? hm), Nat.add_right_comm]
      exact hblocked

-- However far the moves get, no other mailbox is touched.
theorem record_renameAll (h : Movable user moves db) {box : Bytes}
    (hbox : box ∉ moves.map MailboxMove.source ∧ box ∉ moves.map MailboxMove.target) :
    (renameAll env user i moves db).2.record user box = db.record user box := by
  induction moves generalizing i db with
  | nil => rfl
  | cons move moves ih =>
    simp only [List.map_cons, List.mem_cons, not_or] at hbox
    rcases h.renameAll_cons with ⟨_, e, hall⟩ | ⟨_, db₁, hone, hall⟩
    · rw [hall]
    rw [hall]
    refine (ih (h.tail hone) ⟨hbox.1.2, hbox.2.2⟩).trans (hone.others user box fun _ => ?_).1
    simpa using ⟨hbox.1.1, hbox.2.1⟩

-- Nothing is undone: a failure is clean only if it comes first.
theorem renameAll_unchanged_iff (h : Movable user (move :: moves) db) :
    (∀ e db', renameAll env user i (move :: moves) db = (.error e, db') → db' = db) ↔
      ((∃ k m, moves[k]? = some m ∧ Blocked env user db (i + 1 + k) m) → Blocked env user db i move) := by
  rcases h.renameAll_cons with ⟨hfirst, e, hall⟩ | ⟨hfirst, db₁, hone, hall⟩
  · refine iff_of_true (fun e' db' hfailed => ?_) fun _ => hfirst
    rw [hall] at hfailed
    cases hfailed
    rfl
  constructor
  · rintro hclean ⟨k, m, hm, hblocked⟩
    have hlater : ∃ k m, moves[k]? = some m ∧ Blocked env user db₁ (i + 1 + k) m :=
      ⟨k, m, hm, (h.blocked_iff hone (List.mem_of_getElem? hm)).mpr hblocked⟩
    obtain ⟨e, db', hfailed⟩ := renameAll_blocked (h.tail hone) hlater
    -- the first mailbox has left its name, and stays away
    have hsome := h.sources move List.mem_cons_self
    have hgone := @record_renameAll env user db₁ (i + 1) moves (h.tail hone) _ h.source_notMem
    rw [hfailed, (hone.left move List.mem_cons_self).1, hclean e db' (hall.trans hfailed)] at hgone
    rw [hgone] at hsome
    cases hsome
  · intro hnone e db' hfailed
    have hfree : ∀ k m, moves[k]? = some m → ¬ Blocked env user db₁ (i + 1 + k) m := by
      intro k m hm hblocked
      exact hfirst (hnone ⟨k, m, hm, (h.blocked_iff hone (List.mem_of_getElem? hm)).mp hblocked⟩)
    obtain ⟨db'', hdone, -⟩ := renameAll_free (h.tail hone) hfree
    rw [hall, hdone] at hfailed
    cases hfailed

end Moving

def renamedTo (oldName newName name : Bytes) : Bytes :=
  if name = oldName ∨ isInferior oldName name = true then newName ++ name.drop oldName.length else name

-- The mailboxes are the old ones under their new names, each with what it held.
structure HierarchyRenamed (user oldName newName : Bytes) (db db' : Database) : Prop where
  names : ∀ box, (db'.record user box).isSome = true ↔
    ∃ name, (db.record user name).isSome = true ∧ renamedTo oldName newName name = box
  injective : ∀ name other, (db.record user name).isSome = true → (db.record user other).isSome = true →
    renamedTo oldName newName name = renamedTo oldName newName other → name = other
  contents : ∀ name, (db.record user name).isSome = true →
    (db'.record user (renamedTo oldName newName name)).map counters = (db.record user name).map counters ∧
      db'.messagesOf user (renamedTo oldName newName name) = db.messagesOf user name
  kept : ∀ name, (db.record user name).isSome = true → renamedTo oldName newName name = name →
    db'.record user name = db.record user name
  otherUsers : ∀ owner box, owner ≠ user →
    db'.record owner box = db.record owner box ∧ db'.messagesOf owner box = db.messagesOf owner box
  uploads : db'.pendingUploads = db.pendingUploads

section Hierarchy

variable {user oldName newName name other : Bytes} {names : List Bytes} {db db' : Database}
  {move : MailboxMove}

theorem isInferior_iff : isInferior oldName name = true ↔ ∃ rest, name = oldName ++ slash :: rest := by
  rw [isInferior, List.isPrefixOf_iff_prefix]
  constructor
  · rintro ⟨rest, rfl⟩
    exact ⟨rest, by simp⟩
  · rintro ⟨rest, rfl⟩
    exact ⟨rest, by simp⟩

theorem not_isInferior_self : isInferior oldName oldName ≠ true := by
  rw [Ne, isInferior_iff]
  simp

theorem renamedTo_self : renamedTo oldName newName oldName = newName := by
  rw [renamedTo, if_pos (.inl rfl), List.drop_length, List.append_nil]

theorem mem_renameMoves (hold : oldName ∈ names) : move ∈ renameMoves names oldName newName ↔
      move.source ∈ names ∧ (move.source = oldName ∨ isInferior oldName move.source = true) ∧
        move.target = renamedTo oldName newName move.source := by
  obtain ⟨source, target⟩ := move
  rw [renameMoves, List.mem_cons, List.mem_map]
  constructor
  · rintro (heq | ⟨n, hn, heq⟩)
    · cases heq
      exact ⟨hold, .inl rfl, renamedTo_self.symm⟩
    · cases heq
      obtain ⟨hn, hinferior⟩ := List.mem_filter.mp hn
      exact ⟨hn, .inr hinferior, (if_pos (.inr hinferior)).symm⟩
  · rintro ⟨hsource, hmoves, htarget⟩
    dsimp only at hsource hmoves htarget
    rcases hmoves with rfl | hinferior
    · rw [renamedTo_self] at htarget
      exact .inl (by rw [htarget])
    · refine .inr ⟨source, List.mem_filter.mpr ⟨hsource, hinferior⟩, ?_⟩
      rw [htarget, renamedTo, if_pos (.inr hinferior), moveBelow]

theorem renamedTo_injective (h : name = oldName ∨ isInferior oldName name = true)
    (h' : other = oldName ∨ isInferior oldName other = true)
    (heq : renamedTo oldName newName name = renamedTo oldName newName other) : name = other := by
  have hsplit : ∀ n, (n = oldName ∨ isInferior oldName n = true) → n = oldName ++ n.drop oldName.length := by
    rintro n (rfl | hinferior)
    · simp
    · obtain ⟨rest, rfl⟩ := isInferior_iff.mp hinferior
      rw [List.drop_left]
  rw [renamedTo, if_pos h, renamedTo, if_pos h'] at heq
  rw [hsplit name h, hsplit other h', List.append_cancel_left heq]

structure Checked (user oldName newName : Bytes) (db : Database) : Prop where
  old : (db.record user oldName).isSome = true
  free : ∀ name, (db.record user name).isSome = true → (name = oldName ∨ isInferior oldName name = true) →
    db.record user (renamedTo oldName newName name) = none

theorem checked_of_checkRename (hinbox : oldName ≠ bytes "INBOX")
    (h : checkRename (db.listMailboxes user) oldName newName = none) : Checked user oldName newName db := by
  unfold checkRename at h
  dsimp only at h
  split_ifs at h with hpresent hnew hdescendant htargets
  have hmem : ∀ name, name ∉ db.listMailboxes user ++ [bytes "INBOX"] → db.record user name = none := by
    intro name hnot
    rw [List.mem_append, not_or, mem_listMailboxes, not_or] at hnot
    exact Option.not_isSome_iff_eq_none.mp hnot.1.1
  have hold : oldName ∈ db.listMailboxes user := by
    rw [List.mem_append, List.mem_singleton] at hpresent
    exact hpresent.resolve_right hinbox
  refine ⟨?_, fun name hname hmoves => hmem _ ?_⟩
  · rcases mem_listMailboxes.mp hold with hrecord | ⟨-, hisInbox⟩
    · exact hrecord
    · exact absurd hisInbox hinbox
  · rcases hmoves with rfl | hinferior
    · rw [renamedTo_self]
      simp only [Bool.or_eq_true, decide_eq_true_eq, not_or] at hnew
      exact hnew.2
    · intro htarget
      refine htargets (List.any_eq_true.mpr ⟨moveBelow oldName newName name, ?_, ?_⟩)
      · exact List.mem_map_of_mem (List.mem_filter.mpr ⟨mem_listMailboxes.mpr (.inl hname), hinferior⟩)
      · rw [renamedTo, if_pos (.inr hinferior)] at htarget
        exact decide_eq_true htarget

theorem Checked.mem_listMailboxes_iff (h : Checked user oldName newName db) :
    name ∈ db.listMailboxes user ↔ (db.record user name).isSome = true := by
  rw [mem_listMailboxes]
  exact or_iff_left fun hnone => hnone.1 oldName h.old

theorem Checked.mem_renameMoves_iff (h : Checked user oldName newName db) :
    move ∈ renameMoves (db.listMailboxes user) oldName newName ↔
      (db.record user move.source).isSome = true ∧
        (move.source = oldName ∨ isInferior oldName move.source = true) ∧
          move.target = renamedTo oldName newName move.source := by
  rw [mem_renameMoves (h.mem_listMailboxes_iff.mpr h.old), h.mem_listMailboxes_iff]

theorem Checked.movable (h : Checked user oldName newName db) :
    Movable user (renameMoves (db.listMailboxes user) oldName newName) db := by
  have hsources : ((renameMoves (db.listMailboxes user) oldName newName).map MailboxMove.source).Nodup := by
    have hmap : (renameMoves (db.listMailboxes user) oldName newName).map MailboxMove.source =
        oldName :: (db.listMailboxes user).filter (isInferior oldName) := by
      rw [renameMoves, List.map_cons, List.map_map]
      exact congrArg _ (List.map_id _)
    rw [hmap, List.nodup_cons]
    refine ⟨fun hself => ?_, listMailboxes_nodup.filter _⟩
    exact not_isInferior_self (List.mem_filter.mp hself).2
  refine ⟨fun move hmove => ?_, fun move hmove => ?_, hsources, ?_⟩
  · exact (h.mem_renameMoves_iff.mp hmove).1
  · obtain ⟨hsource, hmoves, htarget⟩ := h.mem_renameMoves_iff.mp hmove
    rw [htarget]
    exact h.free _ hsource hmoves
  · -- the targets are the images of the sources
    have hmap : (renameMoves (db.listMailboxes user) oldName newName).map MailboxMove.target =
        ((renameMoves (db.listMailboxes user) oldName newName).map MailboxMove.source).map
          (renamedTo oldName newName) := by
      rw [List.map_map]
      exact List.map_congr_left fun move hmove => (h.mem_renameMoves_iff.mp hmove).2.2
    rw [hmap]
    refine hsources.map_on fun name hname other hother heq => ?_
    obtain ⟨move, hmove, rfl⟩ := List.mem_map.mp hname
    obtain ⟨move', hmove', rfl⟩ := List.mem_map.mp hother
    exact renamedTo_injective (h.mem_renameMoves_iff.mp hmove).2.1 (h.mem_renameMoves_iff.mp hmove').2.1 heq

-- A new name is not the name of a mailbox.
theorem Checked.renamedTo_ne (h : Checked user oldName newName db)
    (hname : (db.record user name).isSome = true) (hmoves : name = oldName ∨ isInferior oldName name = true)
    (hother : (db.record user other).isSome = true) : renamedTo oldName newName name ≠ other := by
  rintro rfl
  rw [h.free name hname hmoves] at hother
  cases hother

theorem Checked.hierarchyRenamed (h : Checked user oldName newName db)
    (hall : Relocates user (renameMoves (db.listMailboxes user) oldName newName) db db') :
    HierarchyRenamed user oldName newName db db' := by
  have hmovable := h.movable
  -- an existing mailbox moves, or it is neither a source nor a target
  have hmoved : ∀ name, (db.record user name).isSome = true →
      (name = oldName ∨ isInferior oldName name = true) →
      ⟨name, renamedTo oldName newName name⟩ ∈ renameMoves (db.listMailboxes user) oldName newName := by
    intro name hname hmoves
    exact h.mem_renameMoves_iff.mpr ⟨hname, hmoves, rfl⟩
  have hstays : ∀ name, (db.record user name).isSome = true →
      ¬ (name = oldName ∨ isInferior oldName name = true) →
      db'.record user name = db.record user name ∧ db'.messagesOf user name = db.messagesOf user name := by
    intro name hname hmoves
    refine hall.others user name fun _ => ⟨fun hsource => ?_, fun htarget => ?_⟩
    · obtain ⟨move, hmove, rfl⟩ := List.mem_map.mp hsource
      exact hmoves (h.mem_renameMoves_iff.mp hmove).2.1
    · obtain ⟨move, hmove, rfl⟩ := List.mem_map.mp htarget
      rw [hmovable.targets move hmove] at hname
      cases hname
  have hcontents : ∀ name, (db.record user name).isSome = true →
      (db'.record user (renamedTo oldName newName name)).map counters =
        (db.record user name).map counters ∧
      db'.messagesOf user (renamedTo oldName newName name) = db.messagesOf user name := by
    intro name hname
    by_cases hmoves : name = oldName ∨ isInferior oldName name = true
    · exact hall.arrived _ (hmoved name hname hmoves)
    · rw [renamedTo, if_neg hmoves, (hstays name hname hmoves).1]
      exact ⟨rfl, (hstays name hname hmoves).2⟩
  refine ⟨fun box => ⟨fun hbox => ?_, ?_⟩, ?_, hcontents, ?_, ?_, hall.uploads⟩
  · by_cases hsource : box ∈ (renameMoves (db.listMailboxes user) oldName newName).map MailboxMove.source
    · obtain ⟨move, hmove, rfl⟩ := List.mem_map.mp hsource
      rw [(hall.left move hmove).1] at hbox
      cases hbox
    · by_cases htarget : box ∈ (renameMoves (db.listMailboxes user) oldName newName).map MailboxMove.target
      · obtain ⟨move, hmove, rfl⟩ := List.mem_map.mp htarget
        exact ⟨move.source, hmovable.sources move hmove, (h.mem_renameMoves_iff.mp hmove).2.2.symm⟩
      · rw [(hall.others user box fun _ => ⟨hsource, htarget⟩).1] at hbox
        refine ⟨box, hbox, if_neg fun hmoves => hsource ?_⟩
        exact List.mem_map.mpr ⟨_, hmoved box hbox hmoves, rfl⟩
  · rintro ⟨name, hname, rfl⟩
    rw [← Option.isSome_map, (hcontents name hname).1, Option.isSome_map]
    exact hname
  · intro name other hname hother heq
    by_cases hmoves : name = oldName ∨ isInferior oldName name = true <;>
      by_cases hmoves' : other = oldName ∨ isInferior oldName other = true
    · exact renamedTo_injective hmoves hmoves' heq
    · exact absurd (heq.trans (if_neg hmoves')) (h.renamedTo_ne hname hmoves hother)
    · exact absurd (heq.symm.trans (if_neg hmoves)) (h.renamedTo_ne hother hmoves' hname)
    · rwa [renamedTo, if_neg hmoves, renamedTo, if_neg hmoves'] at heq
  · intro name hname heq
    exact (hstays name hname fun hmoves => h.renamedTo_ne hname hmoves hname heq).1
  · intro owner box howner
    exact hall.others owner box fun heq => absurd heq howner

end Hierarchy

def Accepted (env : RenameEnv) (db : Database) (user oldName decodedNew newName : Bytes) : Prop :=
  oldName ≠ bytes "INBOX" ∧ checkNewMailboxName decodedNew = .ok newName ∧ env.listFault = false ∧
    checkRename (db.listMailboxes user) oldName newName = none

def InferiorBlocked (env : RenameEnv) (db : Database) (user oldName newName : Bytes) : Prop :=
  ∃ k move, (renameMoves (db.listMailboxes user) oldName newName).tail[k]? = some move ∧
    Blocked env user db (1 + k) move

variable {user oldName decodedNew newName : Bytes} {env : RenameEnv}

theorem handleRename_accepted {db : Database}
    (h : Accepted env db user oldName decodedNew newName) :
    handleRename env db user oldName decodedNew =
      renameReply (renameAll env user 0 (renameMoves (db.listMailboxes user) oldName newName) db) := by
  obtain ⟨hinbox, hname, hlist, hcheck⟩ := h
  rw [handleRename, if_neg hinbox, hname]
  dsimp only
  rw [if_neg (by simp [hlist]), hcheck]

theorem checkRename_no {names : List Bytes} {reply : RenameReply}
    (h : checkRename names oldName newName = some reply) : reply ≠ .completed := by
  unfold checkRename at h
  dsimp only at h
  split_ifs at h <;> cases h <;> exact RenameReply.noConfusion

theorem handleRename_refused {db : Database}
    (h : ∀ newName, ¬ Accepted env db user oldName decodedNew newName) :
    (handleRename env db user oldName decodedNew).1 ≠ .completed ∧
      (handleRename env db user oldName decodedNew).2 = db := by
  unfold handleRename
  split
  · exact ⟨RenameReply.noConfusion, rfl⟩
  rename_i hinbox
  split
  · exact ⟨RenameReply.noConfusion, rfl⟩
  rename_i newName hname
  split
  · exact ⟨RenameReply.noConfusion, rfl⟩
  rename_i hlist
  dsimp only
  split
  · rename_i reply hcheck
    exact ⟨checkRename_no hcheck, rfl⟩
  · rename_i hcheck
    exact absurd ⟨hinbox, hname, Bool.eq_false_iff.mpr hlist, hcheck⟩ (h newName)

-- A rename moves the whole hierarchy or nothing exactly when no mailbox below
-- the first is blocked alone.
theorem handleRename_atomic_iff (env : RenameEnv) (db : Database) (user oldName decodedNew : Bytes) :
    (((handleRename env db user oldName decodedNew).1 = .completed →
        ∃ newName, checkNewMailboxName decodedNew = .ok newName ∧
          HierarchyRenamed user oldName newName db (handleRename env db user oldName decodedNew).2) ∧
      ∀ text, (handleRename env db user oldName decodedNew).1 = .no text →
        (handleRename env db user oldName decodedNew).2 = db) ↔
      ∀ newName, Accepted env db user oldName decodedNew newName →
        InferiorBlocked env db user oldName newName → Blocked env user db 0 ⟨oldName, newName⟩ := by
  by_cases hnone : ∀ newName, ¬ Accepted env db user oldName decodedNew newName
  · obtain ⟨hreply, hdb⟩ := handleRename_refused hnone
    exact iff_of_true ⟨fun hdone => absurd hdone hreply, fun _ _ => hdb⟩
      fun newName haccepted => absurd haccepted (hnone newName)
  push Not at hnone
  obtain ⟨newName, haccepted⟩ := hnone
  have hunique : ∀ other, Accepted env db user oldName decodedNew other → other = newName := by
    intro other hother
    exact Except.ok.inj (hother.2.1.symm.trans haccepted.2.1)
  have hchecked := checked_of_checkRename haccepted.1 haccepted.2.2.2
  have hmovable := hchecked.movable
  have hiff := @renameAll_unchanged_iff env user db 0 _ _ hmovable
  rw [handleRename_accepted haccepted]
  cases hall : renameAll env user 0 (renameMoves (db.listMailboxes user) oldName newName) db with
  | mk outcome db' =>
    cases outcome with
    | error e =>
      have hcond : (∀ other, Accepted env db user oldName decodedNew other →
          InferiorBlocked env db user oldName other → Blocked env user db 0 ⟨oldName, other⟩) ↔
          db' = db := by
        constructor
        · intro h
          exact hiff.mpr (h newName haccepted) e db' hall
        · intro hdb other hother
          rw [hunique other hother]
          refine hiff.mp fun e' db'' hall' => ?_
          rw [renameMoves] at hall
          rw [hall'] at hall
          cases hall
          exact hdb
      rw [hcond]
      constructor
      · intro h
        exact h.2 e.text rfl
      · intro hdb
        exact ⟨RenameReply.noConfusion, fun _ _ => hdb⟩
    | ok _ =>
      have hfree : ∀ k move,
          (renameMoves (db.listMailboxes user) oldName newName)[k]? = some move →
            ¬ Blocked env user db (0 + k) move := by
        intro k move hmove hblocked
        obtain ⟨e, db'', hfailed⟩ := renameAll_blocked hmovable ⟨k, move, hmove, hblocked⟩
        rw [hall] at hfailed
        cases hfailed
      obtain ⟨db'', hdone, hrelocates⟩ := renameAll_free hmovable hfree
      rw [hall] at hdone
      cases hdone
      refine iff_of_true ⟨fun _ => ⟨newName, haccepted.2.1, hchecked.hierarchyRenamed hrelocates⟩,
        fun _ hreply => by cases hreply⟩ ?_
      rintro other hother ⟨k, move, hmove, hblocked⟩
      rw [hunique other hother] at hmove
      have hlater : (renameMoves (db.listMailboxes user) oldName newName)[k + 1]? = some move := hmove
      refine absurd ?_ (hfree (k + 1) move hlater)
      rwa [Nat.zero_add, Nat.add_comm]

def parentAndChild : Database :=
  let parent := (Database.empty.createMailbox ⟨1, false, false⟩ (bytes "u") (bytes "a")).2
  (parent.createMailbox ⟨2, false, false⟩ (bytes "u") (bytes "a/b")).2

def secondFails : RenameEnv := ⟨false, fun i => ⟨3, i = 1, false⟩⟩

-- The client reads NO, and "a" is called "c" while "a/b" is not "c/b".
theorem handleRename_fails_halfway :
    ¬ ∀ (env : RenameEnv) (db : Database) (user oldName decodedNew text : Bytes),
      (handleRename env db user oldName decodedNew).1 = .no text →
        (handleRename env db user oldName decodedNew).2 = db := by
  intro h
  have hsame := h secondFails parentAndChild (bytes "u") (bytes "a") (bytes "c")
    StorageError.fault.text (by decide)
  have hrecord := congrArg (fun db => (db.record (bytes "u") (bytes "a")).isSome) hsame
  revert hrecord
  decide

end UMail.Imap
