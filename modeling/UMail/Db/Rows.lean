import UMail.Db.Calls

namespace UMail.Db

open Std (ExtTreeMap)
open Text (CaseTable equalFold)
open Separator (append_separator_unique)
open UMail.Storage (colon)
open Utf8 (validText)

theorem validName_iff {s : Text} {forbidden : List UInt8} :
    validName s forbidden = true ↔ s ≠ [] ∧ ∀ c ∈ forbidden, c ∉ s := by
  simp only [validName, Bool.and_eq_true, decide_eq_true_eq, Bool.not_eq_true', List.any_eq_false]
  exact and_congr_right fun _ => ⟨fun h c hc hs => h c hs hc, fun h c hs hc => h c hc hs⟩

theorem hasKeyFold_eq_false {β : Type} {table : CaseTable} {b : Bucket β} {key : Text} :
    hasKeyFold table b key = false ↔ ∀ k ∈ b, equalFold table k key = false := by
  unfold hasKeyFold
  simp only [Bool.or_eq_false_iff, List.any_eq_false, ExtTreeMap.mem_keys, Bool.not_eq_true]
  constructor
  · exact And.right
  · intro h
    refine ⟨?_, h⟩
    by_contra hmem
    have hself := h key (by simpa using hmem)
    simp [equalFold] at hself

section Lookups

variable {table : CaseTable} {db : Directory} {row : AliasData}

theorem accounts_putAccount (key : Text) (row : AccountRow) (k : Text) :
    (db.putAccount key row).accounts[k]? = if key = k then some row.marshal else db.accounts[k]? := by
  unfold Directory.putAccount
  simp only [ExtTreeMap.getElem?_insert, Std.compare_eq_iff_eq]

theorem accounts_dropAccount (domain localPart k : Text) :
    (db.dropAccount table domain localPart).accounts[k]? =
      if accountKey domain localPart = k then none else db.accounts[k]? := by
  change (db.accounts.erase (accountKey domain localPart))[k]? = _
  simp only [ExtTreeMap.getElem?_erase, Std.compare_eq_iff_eq]

theorem accounts_dropDomain (name k : Text) :
    (db.dropDomain table name).accounts[k]? =
      db.accounts[k]?.filter fun _ => !matchesFold table (accountKey name []) false k :=
  ExtTreeMap.getElem?_filter'

theorem aliases_putAlias (row : AliasData) (k : Text) :
    (db.putAlias table row).aliases[k]? =
      if row.key table = k then some row.marshal else db.aliases[k]? := by
  unfold Directory.putAlias
  simp only [ExtTreeMap.getElem?_insert, Std.compare_eq_iff_eq]

theorem aliases_of_dropAccount {domain localPart k : Text}
    (h : (db.dropAccount table domain localPart).aliases[k]? = some row) :
    db.aliases[k]? = some row := by
  unfold Directory.dropAccount deleteAliasesTargeting at h
  rw [ExtTreeMap.getElem?_filter'] at h
  exact Option.eq_some_of_filter_eq_some h

theorem aliases_of_dropDomain {name k : Text}
    (h : (db.dropDomain table name).aliases[k]? = some row) : db.aliases[k]? = some row := by
  unfold Directory.dropDomain deleteAliasesTargeting at h
  rw [ExtTreeMap.getElem?_filter'] at h
  have hkept := Option.eq_some_of_filter_eq_some h
  rw [ExtTreeMap.getElem?_filter'] at hkept
  exact Option.eq_some_of_filter_eq_some hkept

theorem aliases_of_erase {key k : Text}
    (h : (db.aliases.erase key)[k]? = some row) : db.aliases[k]? = some row := by
  rw [ExtTreeMap.getElem?_erase] at h
  split_ifs at h
  exact h

end Lookups

-- The names that a row is stored under, of which it holds the text.
def Named (db : Directory) : Prop :=
  ∀ key row, db.accounts[key]? = some row → ∃ domain localPart,
    key = accountKey domain localPart ∧ validAccountNames domain localPart = true ∧
      row.domain = validText domain ∧ row.localPart = validText localPart

section Named

variable {table : CaseTable} {db db' : Directory} {domain localPart : Text}

theorem notMem_of_validAccountNames (h : validAccountNames domain localPart = true) :
    slash ∉ domain ∧ colon ∉ domain ∧ slash ∉ localPart := by
  simp only [validAccountNames, Bool.and_eq_true, validName_iff] at h
  exact ⟨h.1.2 slash (by simp), h.1.2 colon (by simp), h.2.2 slash (by simp)⟩

theorem accountKey_inj {domain' localPart' : Text}
    (hvalid : validAccountNames domain' localPart' = true)
    (h : accountKey domain localPart = accountKey domain' localPart') :
    domain = domain' ∧ localPart = localPart' :=
  append_separator_unique (notMem_of_validAccountNames hvalid).1
    (notMem_of_validAccountNames hvalid).2.2 h

theorem Named.of_key (h : Named db) {row : AccountRow}
    (hrow : db.accounts[accountKey domain localPart]? = some row) :
    validAccountNames domain localPart = true ∧ row.domain = validText domain ∧
      row.localPart = validText localPart := by
  obtain ⟨domain', localPart', hkey, hvalid, hnames⟩ := h _ _ hrow
  obtain ⟨rfl, rfl⟩ := accountKey_inj hvalid hkey
  exact ⟨hvalid, hnames⟩

theorem Named.of_subset (h : Named db)
    (hsub : ∀ (key : Text) (row : AccountRow), db'.accounts[key]? = some row →
      db.accounts[key]? = some row) : Named db' :=
  fun key row hrow => h key row (hsub key row hrow)

theorem Named.put (h : Named db) {row : AccountRow}
    (hvalid : validAccountNames domain localPart = true)
    (hdomain : row.marshal.domain = validText domain)
    (hlocal : row.marshal.localPart = validText localPart) :
    Named (db.putAccount (accountKey domain localPart) row) := by
  intro key row' hrow
  rw [accounts_putAccount] at hrow
  split_ifs at hrow with hkey
  · cases hrow
    exact ⟨domain, localPart, hkey.symm, hvalid, hdomain, hlocal⟩
  · exact h key row' hrow

theorem Named.rewrite (h : Named db) {stored row : AccountRow}
    (hstored : db.getAccount domain localPart = some stored) (hdomain : row.domain = stored.domain)
    (hlocal : row.localPart = stored.localPart) :
    Named (db.putAccount (accountKey domain localPart) row) := by
  obtain ⟨hvalid, hdomain', hlocal'⟩ := h.of_key hstored
  refine h.put hvalid ?_ ?_
  · rw [AccountRow.marshal, hdomain, hdomain', Utf8.validText_validText]
  · rw [AccountRow.marshal, hlocal, hlocal', Utf8.validText_validText]

theorem Named.change (h : Named db) {op : Op} (hchange : Change table db op db') : Named db' := by
  cases hchange with
  | kept => exact h
  | accountCreated _ hvalid => exact h.put hvalid rfl rfl
  | accountUpdated hstored => exact h.put (h.of_key hstored).1 rfl rfl
  | accountMutated hstored | accountMutatedKeepAdmin hstored | quotaMoved hstored
  | stepConsumed hstored => exact h.rewrite hstored rfl rfl
  | accountDropped | accountDroppedKeepAdmin =>
    refine h.of_subset fun key row hrow => ?_
    rw [accounts_dropAccount] at hrow
    split_ifs at hrow
    exact hrow
  | domainDropped | domainDroppedKeepAdmin =>
    refine h.of_subset fun key row hrow => ?_
    rw [accounts_dropDomain] at hrow
    exact Option.eq_some_of_filter_eq_some hrow
  | domainCreated | aliasCreated | aliasUpdated | aliasDropped => exact h

theorem named_run {calls : List Call} : Named (run table calls .empty) := by
  induction calls using List.reverseRecOn with
  | nil => intro key row hrow; simp [Directory.empty] at hrow
  | append_singleton calls call ih =>
    rw [run_append]
    exact ih.change (call.change table _)

end Named

end UMail.Db
