import UMail.Db.Rows
import Mathlib.Data.Set.Insert

namespace UMail.Db

open Std (ExtTreeMap)
open Text (CaseTable toLower equalFold trimSpace equalFold_iff equalFold_comm equalFold_append)
open Separator (cutLast)
open UMail.Storage (bytes colon)
open Utf8 (validText)
open Relation (TransGen ReflTransGen)

structure Address where
  localPart : Text
  domain : Text
  deriving DecidableEq, Repr

-- An active alias for the first address, with the second one for its target.
def Follows (table : CaseTable) (db : Directory) (a b : Address) : Prop :=
  ∃ target, db.resolveAlias table a.domain a.localPart = .ok target ∧
    cutLast atSign (trimSpace target) = some (b.localPart, b.domain) ∧ b.localPart ≠ []

structure AddressSpace (table : CaseTable) (db : Directory) : Prop where
  disjoint : ∀ domain localPart domain' localPart', accountKey domain localPart ∈ db.accounts →
    domain' ++ colon :: localPart' ∈ db.aliases →
    ¬ (equalFold table domain domain' = true ∧ equalFold table localPart localPart' = true)
  accounts : ∀ k ∈ db.accounts, ∀ k' ∈ db.accounts, equalFold table k k' = true → k = k'
  aliases : ∀ k ∈ db.aliases, ∀ k' ∈ db.aliases, equalFold table k k' = true → k = k'
  acyclic : ∀ a, ¬ TransGen (Follows table db) a a

-- An account, and an alias that is stored under the same address although its
-- own name is another one in every case.
def dottedAlias : List Call :=
  [⟨.createDomain ⟨bytes "d", 0, true⟩, false⟩,
    ⟨.createAccount
      { isActive := true, quotaUsed := 0, quotaLimit := 0, localPart := bytes "i",
        domain := bytes "d", isAdmin := false, totpLastUsedStep := 0, tokensValidAfter := 0,
        lastLoginAt := 0 }, false⟩,
    ⟨.createAlias ⟨Utf8.encodeRune Text.dottedI, bytes "x@e", bytes "d", true⟩, false⟩]

theorem addressSpace_fails_dotted :
    ¬ ∀ (table : CaseTable) (calls : List Call), AddressSpace table (run table calls .empty) := by
  intro h
  refine (h Text.latin dottedAlias).disjoint (bytes "d") (bytes "i") (bytes "d") (bytes "i") ?_ ?_ ?_
  · decide
  · decide
  · decide

-- The name of an alias is like its lower case, and its target is UTF-8.
def Op.keepsName (table : CaseTable) : Op → Bool
  | .createAlias row =>
    equalFold table (toLower table row.aliasName) row.aliasName && validText row.target == row.target
  | .updateAlias row => validText row.target == row.target
  | _ => true

structure Apart (table : CaseTable) (accounts aliases : Set Text) : Prop where
  disjoint : ∀ domain localPart domain' localPart', accountKey domain localPart ∈ accounts →
    domain' ++ colon :: localPart' ∈ aliases →
    ¬ (equalFold table domain domain' = true ∧ equalFold table localPart localPart' = true)
  accounts : ∀ k ∈ accounts, ∀ k' ∈ accounts, equalFold table k k' = true → k = k'
  aliases : ∀ k ∈ aliases, ∀ k' ∈ aliases, equalFold table k k' = true → k = k'

section Keys

variable {table : CaseTable} {accounts aliases accounts' aliases' : Set Text}

theorem Apart.mono (h : Apart table accounts aliases) (haccounts : accounts' ⊆ accounts)
    (haliases : aliases' ⊆ aliases) : Apart table accounts' aliases' where
  disjoint d l d' l' ha hb := h.disjoint d l d' l' (haccounts ha) (haliases hb)
  accounts k hk k' hk' := h.accounts k (haccounts hk) k' (haccounts hk')
  aliases k hk k' hk' := h.aliases k (haliases hk) k' (haliases hk')

-- A key that is like none of a set can join it.
theorem unlike_insert {keys : Set Text} {key : Text}
    (h : ∀ k ∈ keys, ∀ k' ∈ keys, equalFold table k k' = true → k = k')
    (hfree : ∀ k ∈ keys, equalFold table k key = false) :
    ∀ k ∈ insert key keys, ∀ k' ∈ insert key keys, equalFold table k k' = true → k = k' := by
  rintro k (rfl | hk) k' (rfl | hk') hfold
  · rfl
  · rw [equalFold_comm, hfree k' hk'] at hfold
    cases hfold
  · rw [hfree k hk] at hfold
    cases hfold
  · exact h k hk k' hk' hfold

theorem Apart.insert_account (h : Apart table accounts aliases) {domain localPart : Text}
    (hvalid : validAccountNames domain localPart = true)
    (hfree : ∀ k ∈ accounts, equalFold table k (accountKey domain localPart) = false)
    (hshadow : ∀ k ∈ aliases, equalFold table k (domain ++ colon :: localPart) = false) :
    Apart table (insert (accountKey domain localPart) accounts) aliases where
  disjoint := by
    rintro d l d' l' (hkey | hk) hb ⟨hdomain, hlocal⟩
    · obtain ⟨rfl, rfl⟩ := accountKey_inj hvalid hkey
      rw [equalFold_comm] at hdomain hlocal
      have hlike : equalFold table (d' ++ colon :: l') (d ++ colon :: l) = true :=
        equalFold_append (by decide) hdomain hlocal
      rw [hshadow _ hb] at hlike
      cases hlike
    · exact h.disjoint d l d' l' hk hb ⟨hdomain, hlocal⟩
  accounts := unlike_insert h.accounts hfree
  aliases := h.aliases

theorem Apart.insert_alias (h : Apart table accounts aliases) {row : AliasData}
    (hplain : ∀ d l, accountKey d l ∈ accounts → colon ∉ d)
    (hdomain : colon ∉ row.domain)
    (hname : equalFold table (toLower table row.aliasName) row.aliasName = true)
    (hfree : ∀ k ∈ aliases, equalFold table k (row.key table) = false)
    (hshadow : ∀ k ∈ accounts, equalFold table k (accountKey row.domain row.aliasName) = false) :
    Apart table accounts (insert (row.key table) aliases) where
  disjoint := by
    rintro d l d' l' ha (hkey | hk) ⟨hd, hl⟩
    · -- Both keys are cut at their first colon.
      have hd' : colon ∉ d' := Text.notMem_of_equalFold (by decide) hd (hplain d l ha)
      obtain ⟨rfl, rfl⟩ := Separator.append_separator_inj hd' hdomain hkey
      have hlocal : equalFold table l row.aliasName = true := by
        rw [equalFold_iff] at hl hname ⊢
        exact hl.trans hname
      have hlike : equalFold table (accountKey d l) (accountKey row.domain row.aliasName) = true :=
        equalFold_append (by decide) hd hlocal
      rw [hshadow _ ha] at hlike
      cases hlike
    · exact h.disjoint d l d' l' ha hk ⟨hd, hl⟩
  accounts := h.accounts
  aliases := unlike_insert h.aliases hfree

end Keys

def keySet {β : Type} (b : Bucket β) : Set Text := {k | k ∈ b}

section Steps

variable {table : CaseTable} {db db' : Directory} {β : Type} {b : Bucket β}

theorem mem_keySet {k : Text} : k ∈ keySet b ↔ k ∈ b := Iff.rfl

theorem keySet_insert (key : Text) {row : β} :
    keySet (b.insert key row) = insert key (keySet b) := by
  ext k
  rw [Set.mem_insert_iff, mem_keySet, ExtTreeMap.mem_insert, Std.compare_eq_iff_eq]
  exact or_congr_left eq_comm

theorem keySet_subset {b' : Bucket β}
    (h : ∀ (k : Text) (row : β), b'[k]? = some row → b[k]? = some row) : keySet b' ⊆ keySet b := by
  intro k hk
  obtain ⟨row, hrow⟩ := Option.isSome_iff_exists.mp (ExtTreeMap.mem_iff_isSome_getElem?.mp hk)
  exact ExtTreeMap.mem_iff_isSome_getElem?.mpr (by rw [h k row hrow]; rfl)

theorem keySet_rewrite {domain localPart : Text} {stored row : AccountRow}
    (hstored : db.getAccount domain localPart = some stored) :
    keySet (db.putAccount (accountKey domain localPart) row).accounts = keySet db.accounts := by
  refine (keySet_insert _).trans (Set.insert_eq_of_mem ?_)
  exact ExtTreeMap.mem_iff_isSome_getElem?.mpr (Option.isSome_of_eq_some hstored)

theorem Apart.change {op : Op} (h : Apart table (keySet db.accounts) (keySet db.aliases)) (hnamed : Named db)
    (hchange : Change table db op db')
    (hname : op.keepsName table = true) :
    Apart table (keySet db'.accounts) (keySet db'.aliases) := by
  cases hchange with
  | kept => exact h
  | accountCreated _ hvalid hfree hshadow =>
    have hinsert := h.insert_account hvalid (hasKeyFold_eq_false.mp hfree)
      (hasKeyFold_eq_false.mp hshadow)
    rwa [← keySet_insert] at hinsert
  | accountUpdated hstored | accountMutated hstored | accountMutatedKeepAdmin hstored
  | quotaMoved hstored | stepConsumed hstored =>
    rw [keySet_rewrite hstored]
    exact h
  | accountDropped | accountDroppedKeepAdmin =>
    refine h.mono (keySet_subset fun k row hrow => ?_)
      (keySet_subset fun k row => aliases_of_dropAccount)
    rw [accounts_dropAccount] at hrow
    split_ifs at hrow
    exact hrow
  | domainDropped | domainDroppedKeepAdmin =>
    refine h.mono (keySet_subset fun k row hrow => ?_)
      (keySet_subset fun k row => aliases_of_dropDomain)
    rw [accounts_dropDomain] at hrow
    exact Option.eq_some_of_filter_eq_some hrow
  | domainCreated => exact h
  | @aliasCreated row hdomain _ _ hfree hshadow =>
    refine keySet_insert _ ▸ h.insert_alias ?_ ((validName_iff.mp hdomain).2 colon (by simp))
      (Bool.and_eq_true_iff.mp hname).1
      (hasKeyFold_eq_false.mp hfree) (hasKeyFold_eq_false.mp hshadow)
    intro d l hmem
    obtain ⟨stored, hstored⟩ := Option.isSome_iff_exists.mp
      (ExtTreeMap.mem_iff_isSome_getElem?.mp hmem)
    exact (notMem_of_validAccountNames (hnamed.of_key hstored).1).2.1
  | @aliasUpdated row hstored =>
    have hsame : keySet (db.putAlias table row).aliases = keySet db.aliases :=
      (keySet_insert _).trans (Set.insert_eq_of_mem (mem_keySet.mpr hstored))
    rw [hsame]
    exact h
  | aliasDropped => exact h.mono subset_rfl (keySet_subset fun k row => aliases_of_erase)

end Steps

section Chains

variable {table : CaseTable} {db db' : Directory}

def Address.key (table : CaseTable) (a : Address) : Text := aliasKey table a.domain a.localPart

variable {a b : Address} {row : AliasData}

theorem follows_iff :
    Follows table db a b ↔ ∃ row, db.aliases[a.key table]? = some row ∧ row.isActive = true ∧
      cutLast atSign (trimSpace row.target) = some (b.localPart, b.domain) ∧ b.localPart ≠ [] := by
  unfold Follows Directory.resolveAlias Directory.getAlias Address.key
  constructor
  · rintro ⟨target, htarget, hcut, hne⟩
    rcases hrow : db.aliases[aliasKey table a.domain a.localPart]? with _ | row
    · simp [hrow] at htarget
    simp only [hrow, Except.ok.injEq] at htarget
    split_ifs at htarget with hactive
    · subst htarget
      exact ⟨row, rfl, hactive, hcut, hne⟩
    · subst htarget
      cases hcut
  · rintro ⟨row, hrow, hactive, hcut, hne⟩
    exact ⟨row.target, by simp [hrow, hactive], hcut, hne⟩

theorem follows_mono
    (h : ∀ (k : Text) (row : AliasData), db'.aliases[k]? = some row → db.aliases[k]? = some row)
    (hab : Follows table db' a b) : Follows table db a b := by
  obtain ⟨row, hrow, hrest⟩ := follows_iff.mp hab
  exact follows_iff.mpr ⟨row, h _ row hrow, hrest⟩

-- Where the check has found an end, no way leads to the alias that it was made
-- for, whatever that alias is to be.
theorem key_ne_of_aliasCycle {depth : Nat} {cur : Text}
    (hcheck : aliasCycle table db.aliases (toLower table (row.key table)) depth cur = false)
    (hcur : cutLast atSign cur = some (a.localPart, a.domain)) (hne : a.localPart ≠ [])
    (hpath : ReflTransGen (Follows table (db.putAlias table row)) a b) :
    b.key table ≠ row.key table := by
  induction depth generalizing cur a with
  | zero => cases hcheck
  | succ depth ih =>
    rw [aliasCycle, hcur] at hcheck
    obtain ⟨localPart, domain⟩ := a
    obtain ⟨c, rest, rfl⟩ := List.exists_cons_of_ne_nil hne
    dsimp only at hcheck
    split_ifs at hcheck with hself
    have hkey : Address.key table ⟨c :: rest, domain⟩ ≠ row.key table := by
      intro heq
      exact hself (congrArg (toLower table) heq)
    rcases ReflTransGen.cases_head hpath with rfl | ⟨next, hstep, hrest⟩
    · exact hkey
    -- The row of another key is the one that the check has read.
    obtain ⟨found, hfound, hactive, hcut, hnonempty⟩ := follows_iff.mp hstep
    rw [aliases_putAlias, if_neg (Ne.symm hkey)] at hfound
    have hlookup : lookupFold table db.aliases (aliasKey table domain (c :: rest)) = some found := by
      unfold lookupFold
      rw [show db.aliases[aliasKey table domain (c :: rest)]? = some found from hfound]
    rw [hlookup] at hcheck
    simp only [hactive] at hcheck
    exact ih hcheck hcut hnonempty hrest

theorem follows_of_key_ne (hkey : a.key table ≠ row.key table)
    (h : Follows table (db.putAlias table row) a b) : Follows table db a b := by
  obtain ⟨found, hfound, hrest⟩ := follows_iff.mp h
  rw [aliases_putAlias, if_neg (Ne.symm hkey)] at hfound
  exact follows_iff.mpr ⟨found, hfound, hrest⟩

-- A way in the new table is one in the old table, or it passes the new alias.
theorem transGen_putAlias (h : TransGen (Follows table (db.putAlias table row)) a b) :
    TransGen (Follows table db) a b ∨ ∃ x, x.key table = row.key table ∧
      ReflTransGen (Follows table (db.putAlias table row)) a x ∧
      TransGen (Follows table (db.putAlias table row)) x b := by
  induction h using TransGen.head_induction_on with
  | @single a hstep =>
    by_cases hkey : a.key table = row.key table
    · exact .inr ⟨a, hkey, .refl, .single hstep⟩
    · exact .inl (.single (follows_of_key_ne hkey hstep))
  | @head a c hstep hrest ih =>
    by_cases hkey : a.key table = row.key table
    · exact .inr ⟨a, hkey, .refl, .head hstep hrest⟩
    · rcases ih with hold | ⟨x, hx, hto, hfrom⟩
      · exact .inl (.head (follows_of_key_ne hkey hstep) hold)
      · exact .inr ⟨x, hx, .head hstep hto, hfrom⟩

theorem acyclic_putAlias (h : ∀ a, ¬ TransGen (Follows table db) a a)
    (htarget : validText row.target = row.target)
    (hcheck : aliasCycleTx table db (row.key table) row.target = false) :
    ¬ TransGen (Follows table (db.putAlias table row)) a a := by
  intro hcycle
  rcases transGen_putAlias hcycle with hold | ⟨x, hx, hto, hfrom⟩
  · exact h a hold
  -- The cycle goes from the new alias to its target and back.
  obtain ⟨c, hstep, hback⟩ := TransGen.head'_iff.mp (hfrom.trans_left hto)
  obtain ⟨found, hfound, _, hcut, hne⟩ := follows_iff.mp hstep
  rw [aliases_putAlias, if_pos hx.symm] at hfound
  cases hfound
  rw [AliasData.marshal, htarget] at hcut
  exact key_ne_of_aliasCycle hcheck hcut hne hback hx

theorem acyclic_subset (h : ∀ a, ¬ TransGen (Follows table db) a a)
    (hsub : ∀ (k : Text) (row : AliasData), db'.aliases[k]? = some row → db.aliases[k]? = some row) :
    ¬ TransGen (Follows table db') a a := by
  intro hcycle
  have hle : Follows table db' ≤ Follows table db := fun _ _ => follows_mono hsub
  exact h a (TransGen.mono hle a a hcycle)

theorem acyclic_change {op : Op} (h : ∀ a, ¬ TransGen (Follows table db) a a)
    (hname : op.keepsName table = true)
    (hchange : Change table db op db') (a : Address) : ¬ TransGen (Follows table db') a a := by
  cases hchange with
  | kept | accountCreated | accountUpdated | accountMutated | accountMutatedKeepAdmin | quotaMoved
  | stepConsumed | domainCreated => exact h a
  | accountDropped | accountDroppedKeepAdmin =>
    exact acyclic_subset h (fun _ _ => aliases_of_dropAccount)
  | domainDropped | domainDroppedKeepAdmin =>
    exact acyclic_subset h (fun _ _ => aliases_of_dropDomain)
  | aliasDropped => exact acyclic_subset h (fun _ _ => aliases_of_erase)
  | aliasCreated _ _ _ _ _ hcheck =>
    exact acyclic_putAlias h (beq_iff_eq.mp (Bool.and_eq_true_iff.mp hname).2) hcheck
  | aliasUpdated _ hcheck => exact acyclic_putAlias h (beq_iff_eq.mp hname) hcheck

end Chains

theorem addressSpace_empty (table : CaseTable) : AddressSpace table .empty where
  disjoint d l d' l' hmem := by simp [Directory.empty] at hmem
  accounts k hmem := by simp [Directory.empty] at hmem
  aliases k hmem := by simp [Directory.empty] at hmem
  acyclic a hcycle := by
    obtain ⟨c, hstep, _⟩ := TransGen.head'_iff.mp hcycle
    obtain ⟨row, hrow, _⟩ := follows_iff.mp hstep
    simp [Directory.empty] at hrow

theorem addressSpace_of_keepsName (table : CaseTable) (calls : List Call)
    (hnames : ∀ call ∈ calls, call.op.keepsName table = true) :
    AddressSpace table (run table calls .empty) := by
  induction calls using List.reverseRecOn with
  | nil => exact addressSpace_empty table
  | append_singleton calls call ih =>
    have hspace := ih fun other h => hnames other (List.mem_append_left _ h)
    have hchange := call.change table (run table calls .empty)
    have hapart : Apart table (keySet (run table calls .empty).accounts)
        (keySet (run table calls .empty).aliases) :=
      ⟨hspace.disjoint, hspace.accounts, hspace.aliases⟩
    have hname := hnames call (by simp)
    have hnext := hapart.change named_run hchange hname
    rw [run_append]
    exact ⟨hnext.disjoint, hnext.accounts, hnext.aliases, acyclic_change hspace.acyclic hname hchange⟩

def plainAliases : List Call :=
  [⟨.createDomain ⟨bytes "d", 0, true⟩, false⟩,
    ⟨.createAlias ⟨bytes "a", bytes "b@d", bytes "d", true⟩, false⟩,
    ⟨.createAlias ⟨bytes "B", bytes "c@d", bytes "d", true⟩, false⟩,
    ⟨.createAlias ⟨bytes "c", bytes "A@d", bytes "d", true⟩, false⟩]

theorem addressSpace_plain_aliases :
    (run Text.latin plainAliases .empty).aliases.keys = [bytes "d:a", bytes "d:b"] ∧
      AddressSpace Text.latin (run Text.latin plainAliases .empty) :=
  ⟨by decide, addressSpace_of_keepsName Text.latin plainAliases (by decide)⟩

end UMail.Db
