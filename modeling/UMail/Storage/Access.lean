import UMail.Library.Scan
import UMail.Library.Utf8
import UMail.Storage.Rename
import Mathlib.Data.Set.Function

namespace UMail.Storage

open Utf8 (validText)
open Std (ExtTreeMap)

def setACLTx (now : Int) (owner mailbox grantee : Bytes) (rights : UInt8) (grantingUser : Bytes)
    (db : Database) : Database :=
  if rights = 0 then { db with acl := db.acl.erase (aclKey owner mailbox grantee) }
  else
    let entry : ACLEntry := ⟨validText grantee, rights, now, validText grantingUser⟩
    { db with acl := db.acl.insert (aclKey owner mailbox grantee) entry }

def Database.setACL (env : Env) (db : Database) (owner mailbox grantee : Bytes) (rights : UInt8)
    (grantingUser : Bytes) : Except StorageError Unit × Database :=
  db.update env fun db => .ok ((), setACLTx env.now owner mailbox grantee rights grantingUser db)

-- An empty grantee stands for all of them.
def Database.deleteACL (env : Env) (db : Database) (owner mailbox grantee : Bytes) :
    Except StorageError Unit × Database :=
  db.update env fun db => .ok ((),
    if grantee ≠ [] then { db with acl := db.acl.erase (aclKey owner mailbox grantee) }
    else deleteACLTx owner mailbox db)

def Database.listACL (db : Database) (owner mailbox : Bytes) : List ACLEntry :=
  (db.aclEntries owner mailbox).map Prod.snd

def Database.canAccess (db : Database) (user owner mailbox : Bytes) (required : UInt8) : Bool :=
  user == owner || db.getACL owner mailbox user &&& required == required

structure Grant where
  owner : Bytes
  mailbox : Bytes
  grantee : Bytes
  deriving DecidableEq, Repr

def Grant.key (t : Grant) : Bytes := aclKey t.owner t.mailbox t.grantee

inductive AclCall
  | set (t : Grant) (rights : UInt8) (grantingUser : Bytes)
  | delete (t : Grant)
  deriving DecidableEq, Repr

def AclCall.target : AclCall → Option Grant
  | .set t _ _ => some t
  | .delete t => if t.grantee ≠ [] then some t else none

def AclCall.apply (env : Env) (db : Database) : AclCall → Database
  | .set t rights grantingUser => (db.setACL env t.owner t.mailbox t.grantee rights grantingUser).2
  | .delete t => (db.deleteACL env t.owner t.mailbox t.grantee).2

def runACL (db : Database) (calls : List (Env × AclCall)) : Database :=
  calls.foldl (fun db call => call.2.apply call.1 db) db

def Database.rightsOf (db : Database) (t : Grant) : UInt8 := db.getACL t.owner t.mailbox t.grantee

def Database.lists (db : Database) (t : Grant) (rights : UInt8) : Prop :=
  ∃ entry ∈ db.listACL t.owner t.mailbox, entry.grantee = t.grantee ∧ entry.rights = rights

structure SameReports (db db' : Database) (t : Grant) : Prop where
  get : db'.rightsOf t = db.rightsOf t
  access : ∀ required, db'.canAccess t.grantee t.owner t.mailbox required =
    db.canAccess t.grantee t.owner t.mailbox required
  list : ∀ entry, entry.grantee = t.grantee →
    (entry ∈ db'.listACL t.owner t.mailbox ↔ entry ∈ db.listACL t.owner t.mailbox)

def Within (used : Set Grant) (calls : List (Env × AclCall)) : Prop :=
  ∀ call ∈ calls, ∀ t, call.2.target = some t → t ∈ used

-- After any calls about the entries of a set, the list of a mailbox agrees with
-- the entries one by one, a call about one entry leaves the others alone, and
-- removing all entries of a mailbox leaves those of other mailboxes alone.
structure AclSound (used : Set Grant) : Prop where
  listed : ∀ calls, Within used calls → ∀ t ∈ used, ∀ rights,
    (runACL .empty calls).lists t rights ↔ (runACL .empty calls).rightsOf t = rights ∧ rights ≠ 0
  isolated : ∀ calls, Within used calls → ∀ (env : Env) (call : AclCall) (target : Grant),
    call.target = some target → target ∈ used → ∀ t ∈ used, t ≠ target →
      SameReports (runACL .empty calls) (call.apply env (runACL .empty calls)) t
  cleared : ∀ calls, Within used calls → ∀ (env : Env) (owner mailbox : Bytes) (db : Database),
    db = ((runACL .empty calls).deleteACL env owner mailbox []).2 → env.fault = false →
      ∀ t ∈ used, if t.owner = owner ∧ t.mailbox = mailbox
        then db.rightsOf t = 0 ∧ ∀ rights, ¬ db.lists t rights
        else SameReports (runACL .empty calls) db t

-- The entry of "b:c" for the mailbox "a" has the key of the entry of "c" for "a:b".
theorem aclSound_fails_colon : ¬ AclSound Set.univ := by
  intro h
  have hsame := h.isolated [] (fun _ hmem => by cases hmem) ⟨0, false, false⟩
    (.set ⟨bytes "u", bytes "a", bytes "b:c"⟩ 1 []) _ rfl trivial
    ⟨bytes "u", bytes "a:b", bytes "c"⟩ trivial (by decide)
  have hget := hsame.get
  revert hget
  decide

section Reports

variable {db db' : Database} {t : Grant} {rights : UInt8}

theorem mem_listACL {owner mailbox : Bytes} {entry : ACLEntry} :
    entry ∈ db.listACL owner mailbox ↔ db.acl[aclKey owner mailbox entry.grantee]? = some entry := by
  unfold Database.listACL
  rw [List.mem_map]
  constructor
  · rintro ⟨⟨key, found⟩, hmem, rfl⟩
    obtain ⟨hrow, rfl⟩ := mem_aclEntries.mp hmem
    exact hrow
  · intro hrow
    exact ⟨(_, entry), mem_aclEntries.mpr ⟨hrow, rfl⟩, rfl⟩

theorem lists_iff :
    db.lists t rights ↔
      ∃ entry, db.acl[t.key]? = some entry ∧ entry.grantee = t.grantee ∧ entry.rights = rights := by
  constructor
  · rintro ⟨entry, hmem, hgrantee, hrights⟩
    have hrow := mem_listACL.mp hmem
    rw [hgrantee] at hrow
    exact ⟨entry, hrow, hgrantee, hrights⟩
  · rintro ⟨entry, hrow, hgrantee, hrights⟩
    refine ⟨entry, mem_listACL.mpr ?_, hgrantee, hrights⟩
    rw [hgrantee]
    exact hrow

theorem SameReports.of_acl (h : db'.acl[t.key]? = db.acl[t.key]?) : SameReports db db' t := by
  have hget : db'.rightsOf t = db.rightsOf t :=
    congrArg (fun row : Option ACLEntry => (row.map ACLEntry.rights).getD 0) h
  refine ⟨hget, fun required => ?_, fun entry hgrantee => ?_⟩
  · unfold Database.canAccess
    rw [show db'.getACL t.owner t.mailbox t.grantee = db.getACL t.owner t.mailbox t.grantee from hget]
  · rw [mem_listACL, mem_listACL, hgrantee]
    exact Eq.congr_left h

theorem rightsOf_eq_zero (h : db.acl[t.key]? = none) : db.rightsOf t = 0 := by
  have hrow : db.acl[aclKey t.owner t.mailbox t.grantee]? = none := h
  simp [Database.rightsOf, Database.getACL, hrow]

theorem not_lists_of_acl (h : db.acl[t.key]? = none) : ¬ db.lists t rights := by
  rw [lists_iff, h]
  rintro ⟨_, habsurd, _⟩
  cases habsurd

end Reports

section Calls

theorem deleteACLTx_acl (db : Database) (owner mailbox key : Bytes) :
    (deleteACLTx owner mailbox db).acl[key]? =
      db.acl[key]?.filter fun entry => key ≠ aclKey owner mailbox entry.grantee := by
  unfold deleteACLTx
  simp only [Scan.getElem?_foldl_erase Prod.fst]
  rcases hrow : db.acl[key]? with _ | entry
  · simp
  have hmem : key ∈ (db.aclEntries owner mailbox).map Prod.fst ↔
      key = aclKey owner mailbox entry.grantee := by
    rw [List.mem_map]
    constructor
    · rintro ⟨⟨_, found⟩, hmem, rfl⟩
      obtain ⟨hfound, hkey⟩ := mem_aclEntries.mp hmem
      cases hfound.symm.trans hrow
      exact hkey
    · intro hkey
      exact ⟨(key, entry), mem_aclEntries.mpr ⟨hrow, hkey⟩, rfl⟩
  by_cases hkey : key = aclKey owner mailbox entry.grantee
  · rw [if_pos (hmem.mpr hkey), Option.filter_some, if_neg (by simpa using hkey)]
  · rw [if_neg (hmem.not.mpr hkey), Option.filter_some, if_pos (by simpa using hkey)]

theorem setACL_acl (env : Env) (db : Database) (t : Grant) (rights : UInt8)
    (grantingUser key : Bytes) :
    (AclCall.set t rights grantingUser |>.apply env db).acl[key]? =
      if env.fault = true ∨ key ≠ t.key then db.acl[key]?
      else if rights = 0 then none
      else some ⟨validText t.grantee, rights, env.now, validText grantingUser⟩ := by
  unfold AclCall.apply Database.setACL Database.update setACLTx
  cases env.fault with
  | true => rfl
  | false =>
    by_cases hrights : rights = 0
    · by_cases hkey : key = aclKey t.owner t.mailbox t.grantee
      · simp [hrights, Grant.key, hkey]
      · have hne : ¬ aclKey t.owner t.mailbox t.grantee = key := Ne.symm hkey
        simp [hrights, Grant.key, hkey, hne, ExtTreeMap.getElem?_erase]
    · by_cases hkey : key = aclKey t.owner t.mailbox t.grantee
      · simp [hrights, Grant.key, hkey]
      · have hne : ¬ aclKey t.owner t.mailbox t.grantee = key := Ne.symm hkey
        simp [hrights, Grant.key, hkey, hne, ExtTreeMap.getElem?_insert]

theorem deleteACL_acl (env : Env) (db : Database) (t : Grant) (key : Bytes) :
    (AclCall.delete t |>.apply env db).acl[key]? =
      if env.fault then db.acl[key]?
      else if t.grantee ≠ [] then if key = t.key then none else db.acl[key]?
      else db.acl[key]?.filter fun entry => key ≠ aclKey t.owner t.mailbox entry.grantee := by
  unfold AclCall.apply Database.deleteACL Database.update
  cases env.fault with
  | true => rfl
  | false =>
    by_cases hgrantee : t.grantee = []
    · simp only [hgrantee, ne_eq]
      exact deleteACLTx_acl db t.owner t.mailbox key
    by_cases hkey : key = aclKey t.owner t.mailbox t.grantee
    · simp [hgrantee, Grant.key, hkey]
    · have hne : ¬ aclKey t.owner t.mailbox t.grantee = key := Ne.symm hkey
      simp [hgrantee, Grant.key, hkey, hne, ExtTreeMap.getElem?_erase]

theorem apply_acl_of_ne {call : AclCall} {target : Grant} {key : Bytes} (env : Env) (db : Database)
    (htarget : call.target = some target) (hkey : key ≠ target.key) :
    (call.apply env db).acl[key]? = db.acl[key]? := by
  cases call with
  | set t rights grantingUser =>
    cases htarget
    rw [setACL_acl, if_pos (Or.inr hkey)]
  | delete t =>
    by_cases hgrantee : t.grantee = []
    · simp [AclCall.target, hgrantee] at htarget
    · obtain rfl : t = target := by simpa [AclCall.target, hgrantee] using htarget
      rw [deleteACL_acl, if_pos hgrantee, if_neg hkey, ite_self]

end Calls

def Stored (used : Set Grant) (db : Database) : Prop :=
  ∀ key entry, db.acl[key]? = some entry →
    entry.rights ≠ 0 ∧ ∃ t ∈ used, key = t.key ∧ entry.grantee = validText t.grantee

section Runs

variable {used : Set Grant} {db : Database} {t : Grant}

theorem Stored.apply {call : AclCall} (h : Stored used db) (env : Env)
    (hcall : ∀ t, call.target = some t → t ∈ used) : Stored used (call.apply env db) := by
  intro key entry hrow
  cases call with
  | set t rights grantingUser =>
    rw [setACL_acl] at hrow
    split at hrow
    · exact h key entry hrow
    rename_i hkey
    split at hrow
    · cases hrow
    · rename_i hrights
      cases hrow
      exact ⟨hrights, t, hcall t rfl, not_not.mp (not_or.mp hkey).2, rfl⟩
  | delete t =>
    rw [deleteACL_acl] at hrow
    split at hrow
    · exact h key entry hrow
    split at hrow
    · split at hrow
      · cases hrow
      · exact h key entry hrow
    · exact h key entry (Option.filter_eq_some_iff.mp hrow).1

theorem Stored.run {calls : List (Env × AclCall)} (h : Stored used db) (hcalls : Within used calls) :
    Stored used (runACL db calls) := by
  induction calls generalizing db with
  | nil => exact h
  | cons call calls ih =>
    have hhead : Stored used (call.2.apply call.1 db) :=
      h.apply call.1 (hcalls call List.mem_cons_self)
    exact ih hhead fun later hlater => hcalls later (List.mem_cons_of_mem _ hlater)

theorem stored_empty : Stored used .empty := by
  intro key entry hrow
  simp [Database.empty] at hrow

-- Where keys tell entries apart and a name is stored as it is, the entry at a
-- key is the one the key was made for.
theorem Stored.grantee {entry : ACLEntry} (h : Stored used db) (hkeys : Set.InjOn Grant.key used)
    (hnames : ∀ t ∈ used, validText t.grantee = t.grantee) (ht : t ∈ used)
    (hrow : db.acl[t.key]? = some entry) : entry.grantee = t.grantee := by
  obtain ⟨_, other, hother, hkey, hgrantee⟩ := h t.key entry hrow
  obtain rfl := hkeys ht hother hkey
  rw [hgrantee, hnames t ht]

theorem Stored.lists_iff_rightsOf {rights : UInt8} (h : Stored used db)
    (hgrantee : ∀ entry, db.acl[t.key]? = some entry → entry.grantee = t.grantee) :
    db.lists t rights ↔ db.rightsOf t = rights ∧ rights ≠ 0 := by
  cases hrow : db.acl[t.key]? with
  | none =>
    refine iff_of_false (not_lists_of_acl hrow) ?_
    rintro ⟨rfl, hrights⟩
    exact hrights (rightsOf_eq_zero hrow)
  | some entry =>
    have hrights : db.rightsOf t = entry.rights :=
      congrArg (fun row : Option ACLEntry => (row.map ACLEntry.rights).getD 0) hrow
    rw [lists_iff, hrights, hrow]
    constructor
    · rintro ⟨_, ⟨rfl⟩, _, rfl⟩
      exact ⟨rfl, (h _ _ hrow).1⟩
    · rintro ⟨rfl, _⟩
      exact ⟨entry, rfl, hgrantee entry hrow, rfl⟩

-- Of the mailbox nothing is left, and what another one has stays.
theorem deleteACL_acl_key {env : Env} (owner mailbox : Bytes) (henv : env.fault = false)
    (hgrantee : ∀ entry, db.acl[t.key]? = some entry → entry.grantee = t.grantee) :
    (db.deleteACL env owner mailbox []).2.acl[t.key]? =
      if t.owner = owner ∧ t.mailbox = mailbox then none else db.acl[t.key]? := by
  have hdelete := deleteACL_acl env db ⟨owner, mailbox, []⟩ t.key
  rw [henv] at hdelete
  refine hdelete.trans ?_
  simp only [ne_eq]
  rcases hrow : db.acl[t.key]? with _ | entry
  · simp
  have hkey : t.key = aclKey owner mailbox entry.grantee ↔
      t.owner = owner ∧ t.mailbox = mailbox := by
    rw [hgrantee entry hrow]
    constructor
    · exact aclKey_mailbox
    · rintro ⟨rfl, rfl⟩
      rfl
  simp only [Option.filter_some, hkey]
  by_cases hsame : t.owner = owner ∧ t.mailbox = mailbox
  · simp [hsame]
  · simp [hsame]

end Runs

section Converse

variable {used : Set Grant} {t : Grant}

def quiet : Env := ⟨0, false, false⟩

theorem within_set (ht : t ∈ used) (rights : UInt8) : Within used [(quiet, .set t rights [])] := by
  intro call hcall other hother
  obtain rfl := List.mem_singleton.mp hcall
  cases hother
  exact ht

theorem run_set_acl (t : Grant) (key : Bytes) :
    (runACL .empty [(quiet, .set t 1 [])]).acl[key]? =
      if key = t.key then some ⟨validText t.grantee, 1, 0, validText []⟩ else none := by
  have hset := setACL_acl quiet .empty t 1 [] key
  refine hset.trans ?_
  by_cases hkey : key = t.key
  · simp [hkey, quiet]
  · simp [hkey, Database.empty]

theorem AclSound.injOn (h : AclSound used) : Set.InjOn Grant.key used := by
  intro t ht other hother hkey
  by_contra hne
  have hsame := (h.isolated [] (fun _ hmem => by cases hmem) quiet (.set t 1 []) t rfl ht other hother
    (Ne.symm hne)).get
  have hrow : (runACL .empty [(quiet, .set t 1 [])]).acl[other.key]? = _ := run_set_acl t other.key
  rw [if_pos hkey.symm] at hrow
  have hbefore : (runACL .empty []).rightsOf other = 0 :=
    rightsOf_eq_zero (by simp [runACL, Database.empty])
  have hafter : (runACL .empty [(quiet, .set t 1 [])]).rightsOf other = 1 :=
    congrArg (fun row : Option ACLEntry => (row.map ACLEntry.rights).getD 0) hrow
  have habsurd : (1 : UInt8) = 0 := hafter.symm.trans (hsame.trans hbefore)
  exact absurd habsurd (by decide)

theorem AclSound.validText_grantee (h : AclSound used) (ht : t ∈ used) :
    validText t.grantee = t.grantee := by
  have hrow := run_set_acl t t.key
  rw [if_pos rfl] at hrow
  have hrights : (runACL .empty [(quiet, .set t 1 [])]).rightsOf t = 1 :=
    congrArg (fun row : Option ACLEntry => (row.map ACLEntry.rights).getD 0) hrow
  obtain ⟨entry, hfound, hgrantee, _⟩ :=
    lists_iff.mp ((h.listed _ (within_set ht 1) t ht 1).mpr ⟨hrights, by decide⟩)
  cases hrow.symm.trans hfound
  exact hgrantee

end Converse

-- The entries are kept apart exactly for triples with different keys whose
-- grantee is well-formed text.
theorem aclSound_iff (used : Set Grant) :
    AclSound used ↔
      Set.InjOn Grant.key used ∧ ∀ t ∈ used, validText t.grantee = t.grantee := by
  constructor
  · intro h
    exact ⟨h.injOn, fun t ht => h.validText_grantee ht⟩
  · rintro ⟨hkeys, hnames⟩
    have hstored : ∀ calls, Within used calls → Stored used (runACL .empty calls) :=
      fun calls hcalls => stored_empty.run hcalls
    refine ⟨fun calls hcalls t ht rights => ?_,
      fun calls hcalls env call target htarget hused t ht hne => ?_,
      fun calls hcalls env owner mailbox db hdb henv t ht => ?_⟩
    · exact (hstored calls hcalls).lists_iff_rightsOf fun entry hrow =>
        (hstored calls hcalls).grantee hkeys hnames ht hrow
    · exact .of_acl (apply_acl_of_ne env _ htarget fun hkey => hne (hkeys ht hused hkey))
    · have hcleared := deleteACL_acl_key owner mailbox henv
        fun entry hrow => (hstored calls hcalls).grantee hkeys hnames ht hrow
      subst hdb
      split
      · rename_i hmailbox
        rw [if_pos hmailbox] at hcleared
        exact ⟨rightsOf_eq_zero hcleared, fun rights => not_lists_of_acl hcleared⟩
      · rename_i hmailbox
        rw [if_neg hmailbox] at hcleared
        exact .of_acl hcleared

end UMail.Storage
