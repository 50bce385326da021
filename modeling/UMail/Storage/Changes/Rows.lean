import UMail.Storage.Changes

namespace UMail.Storage

open Std (ExtTreeMap)

section Model

-- What happens to the journals: the two writing calls, and rows of the file
-- that become unreadable.
inductive JournalCall
  | record (user : Bytes) (change : Change)
  | prune (user : Bytes)
  | damage (user : Bytes) (seq : UInt64)
  deriving DecidableEq, Repr

def Journal.damage (seq : UInt64) (journal : Journal) : Journal :=
  if seq ∈ journal.rows then { journal with rows := journal.rows.insert seq none } else journal

def JournalCall.apply (env : ChangeEnv) (changes : Changes) : JournalCall → Changes
  | .record user change => changes.recordChange env user change
  | .prune user => changes.pruneChanges env user
  | .damage user seq => match changes[changesBucket user]? with
    | none => changes
    | some journal => changes.insert (changesBucket user) (journal.damage seq)

def runJournal (calls : List (ChangeEnv × JournalCall)) : Changes :=
  calls.foldl (fun changes call => call.2.apply call.1 changes) ∅

def Journal.entries (journal : Journal) : List ChangeEntry := journal.rows.toList.filterMap Prod.snd

def Journal.kept (now : Int) (journal : Journal) : List (UInt64 × Option ChangeEntry) :=
  let live := journal.rows.toList.filter fun row => !expired (now - changesRetention) row.2
  live.drop (live.length - changesMaxEntriesPerUser)

end Model

section Journals

variable {user other : Bytes}

theorem journal_insert (changes : Changes) (journal : Journal) :
    Changes.journal (changes.insert (changesBucket other) journal) user =
      if other = user then journal else changes.journal user := by
  unfold Changes.journal
  simp only [ExtTreeMap.getElem?_insert, Std.compare_eq_iff_eq, changesBucket_inj]
  split_ifs <;> rfl

theorem journal_recordChange (env : ChangeEnv) (changes : Changes) (writer : Bytes) (change : Change)
    (user : Bytes) : (changes.recordChange env writer change).journal user =
      if writer = user ∧ ¬ (user = [] ∨ env.fault) then
        (changes.journal user).record env.now change else changes.journal user := by
  unfold Changes.recordChange
  by_cases hwriter : writer = user
  · subst hwriter
    by_cases hskip : writer = [] ∨ env.fault
    · simp [hskip]
    · rw [if_neg hskip, journal_insert]
      simp [hskip]
  · simp only [hwriter, false_and, if_false]
    split_ifs
    · rfl
    · rw [journal_insert, if_neg hwriter]

theorem journal_of_getElem? {changes : Changes} {journal : Journal}
    (h : changes[changesBucket user]? = some journal) : changes.journal user = journal := by
  simp [Changes.journal, h]

-- A journal is rewritten where there is one.
theorem journal_rewritten {f : Journal → Journal} (hf : f .empty = .empty) (changes : Changes) :
    Changes.journal (match changes[changesBucket other]? with
      | none => changes
      | some journal => changes.insert (changesBucket other) (f journal)) user =
      if other = user then f (changes.journal user) else changes.journal user := by
  cases hjournal : changes[changesBucket other]? with
  | none =>
    split_ifs with hother
    · subst hother
      simp [Changes.journal, hjournal, hf]
    · rfl
  | some journal =>
    rw [journal_insert]
    split_ifs with hother
    · subst hother
      rw [journal_of_getElem? hjournal]
    · rfl

theorem journal_pruneChanges (env : ChangeEnv) (changes : Changes) :
    (changes.pruneChanges env other).journal user =
      if other = user ∧ ¬ (user = [] ∨ env.fault) then (changes.journal user).prune env.now
      else changes.journal user := by
  unfold Changes.pruneChanges
  by_cases hskip : other = [] ∨ env.fault
  · rw [if_pos hskip, if_neg]
    rintro ⟨rfl, hruns⟩
    exact hruns hskip
  · rw [if_neg hskip]
    exact (journal_rewritten rfl changes).trans (if_congr ⟨fun h => ⟨h, h ▸ hskip⟩, And.left⟩ rfl rfl)

end Journals

section Prune

theorem toList_foldl_erase (journal : Journal) (cutoff : Int) :
    (((journal.rows.toList.filter fun row => expired cutoff row.2).map Prod.fst).foldl
      (fun rows key => rows.erase key) journal.rows).toList =
      journal.rows.toList.filter fun row => !expired cutoff row.2 := by
  refine Scan.toList_eq (ExtTreeMap.ordered_keys_toList.filter _) fun key row => ?_
  rw [Scan.getElem?_foldl_erase_keys, List.mem_filter,
    ExtTreeMap.mem_toList_iff_getElem?_eq_some]
  have hdoomed : key ∈ (journal.rows.toList.filter fun row => expired cutoff row.2).map Prod.fst ↔
      ∃ row, journal.rows[key]? = some row ∧ expired cutoff row = true := by
    simp
  constructor
  · rintro ⟨hrow, hlive⟩
    rw [if_neg]
    · exact hrow
    · rintro hkey
      obtain ⟨row', hrow', hexpired⟩ := hdoomed.mp hkey
      cases hrow.symm.trans hrow'
      simp [hexpired] at hlive
  · intro h
    split_ifs at h with hkey
    refine ⟨h, ?_⟩
    by_contra hexpired
    exact hkey (hdoomed.mpr ⟨row, h, by simpa using hexpired⟩)

-- Keys that are taken from the front of the rows leave the rest.
theorem toList_foldl_erase_take (rows : ExtTreeMap UInt64 (Option ChangeEntry)) (n : Nat) :
    ((rows.keys.take n).foldl (fun rows key => rows.erase key) rows).toList = rows.toList.drop n := by
  have hsorted : rows.toList.Pairwise fun a b => compare a.1 b.1 = .lt :=
    ExtTreeMap.ordered_keys_toList
  refine Scan.toList_eq (hsorted.drop) fun key row => ?_
  rw [Scan.getElem?_foldl_erase_keys, ← ExtTreeMap.map_fst_toList_eq_keys, ← List.map_take]
  rw [← List.take_append_drop n rows.toList, List.pairwise_append] at hsorted
  constructor
  · intro hmem
    rw [if_neg]
    · exact ExtTreeMap.mem_toList_iff_getElem?_eq_some.mp (List.mem_of_mem_drop hmem)
    · rintro hkey
      obtain ⟨⟨_, row'⟩, htaken, rfl⟩ := List.mem_map.mp hkey
      simpa using hsorted.2.2 _ htaken _ hmem
  · intro h
    split_ifs at h with hkey
    have hmem := ExtTreeMap.mem_toList_iff_getElem?_eq_some.mpr h
    rw [← List.take_append_drop n rows.toList, List.mem_append] at hmem
    rcases hmem with htaken | hdropped
    · exact absurd (List.mem_map.mpr ⟨_, htaken, rfl⟩) hkey
    · exact hdropped

theorem toList_prune (now : Int) (journal : Journal) :
    (journal.prune now).rows.toList = journal.kept now ∧
      (journal.prune now).sequence = journal.sequence := by
  have hlive := toList_foldl_erase journal (now - changesRetention)
  unfold Journal.prune Journal.kept
  simp only [← List.countP_eq_length_filter]
  split_ifs with hcap
  · refine ⟨?_, rfl⟩
    rw [hlive, Nat.sub_eq_zero_of_le hcap, List.drop_zero]
  · refine ⟨?_, rfl⟩
    rw [toList_foldl_erase_take, hlive]

end Prune

section Numbers

variable {user : Bytes} {changes : Changes}

-- Rows are numbered up to the sequence, and an entry knows its number.
def Journal.Numbered (journal : Journal) : Prop :=
  ∀ (key : UInt64) row, journal.rows[key]? = some row →
    key ≤ journal.sequence ∧ ∀ entry, row = some entry → entry.seq = key

structure Thinned (journal journal' : Journal) : Prop where
  sequence : journal'.sequence = journal.sequence
  rows : ∀ (key : UInt64) row, journal'.rows[key]? = some row →
    row = none ∧ (journal.rows[key]?).isSome ∨ journal.rows[key]? = some row

theorem thinned_prune {now : Int} (journal : Journal) : Thinned journal (journal.prune now) := by
  obtain ⟨hrows, hsequence⟩ := toList_prune now journal
  refine ⟨hsequence, fun key row h => Or.inr ?_⟩
  have hmem := ExtTreeMap.mem_toList_iff_getElem?_eq_some.mpr h
  rw [hrows] at hmem
  exact ExtTreeMap.mem_toList_iff_getElem?_eq_some.mp
    (List.mem_of_mem_filter (List.mem_of_mem_drop hmem))

theorem thinned_damage (seq : UInt64) (journal : Journal) : Thinned journal (journal.damage seq) := by
  unfold Journal.damage
  split_ifs with hmem
  · refine ⟨rfl, fun key row h => ?_⟩
    simp only [ExtTreeMap.getElem?_insert, Std.compare_eq_iff_eq] at h
    split_ifs at h with hkey
    · subst hkey
      cases h
      exact Or.inl ⟨rfl, ExtTreeMap.mem_iff_isSome_getElem?.mp hmem⟩
    · exact Or.inr h
  · exact ⟨rfl, fun key row h => Or.inr h⟩

theorem journal_damage (env : ChangeEnv) (changes : Changes) (owner user : Bytes) (seq : UInt64) :
    ((JournalCall.damage owner seq).apply env changes).journal user =
      if owner = user then (changes.journal user).damage seq else changes.journal user :=
  journal_rewritten (f := Journal.damage seq) (if_neg ExtTreeMap.not_mem_empty) changes

theorem Thinned.refl (journal : Journal) : Thinned journal journal := ⟨rfl, fun _ _ h => Or.inr h⟩

theorem thinned_apply {call : JournalCall} {env : ChangeEnv}
    (hcall : ∀ writer change, call ≠ .record writer change) :
    Thinned (changes.journal user) ((call.apply env changes).journal user) := by
  cases call with
  | record writer change => exact absurd rfl (hcall writer change)
  | prune owner =>
    rw [JournalCall.apply, journal_pruneChanges]
    split_ifs
    · exact thinned_prune _
    · exact .refl _
  | damage owner seq =>
    rw [journal_damage]
    split_ifs
    · exact thinned_damage seq _
    · exact .refl _

theorem journal_apply (env : ChangeEnv) (call : JournalCall) :
    (∃ change, (call.apply env changes).journal user = (changes.journal user).record env.now change) ∨
      Thinned (changes.journal user) ((call.apply env changes).journal user) := by
  by_cases hcall : ∃ writer change, call = .record writer change
  · obtain ⟨writer, change, rfl⟩ := hcall
    simp only [JournalCall.apply, journal_recordChange]
    split_ifs
    · exact Or.inl ⟨change, rfl⟩
    · exact Or.inr (.refl _)
  · exact Or.inr (thinned_apply (fun writer change h => hcall ⟨writer, change, h⟩))

variable {journal : Journal} {n : Nat}

theorem Journal.Numbered.thinned {journal' : Journal} (h : journal.Numbered)
    (hthin : Thinned journal journal') : journal'.Numbered := by
  intro key row hrow
  rw [hthin.sequence]
  rcases hthin.rows key row hrow with ⟨rfl, hsome⟩ | hold
  · obtain ⟨row, hold⟩ := Option.isSome_iff_exists.mp hsome
    exact ⟨(h key row hold).1, fun entry he => by cases he⟩
  · exact h key row hold

theorem toNat_sequence_record (h : journal.sequence.toNat ≤ n) (hn : n + 1 < 2 ^ 64) (now : Int)
    (change : Change) : (journal.record now change).sequence.toNat = journal.sequence.toNat + 1 := by
  have hsum : (journal.record now change).sequence = journal.sequence + 1 := rfl
  rw [hsum, UInt64.toNat_add]
  simp only [UInt64.toNat_one]
  omega

theorem lt_entryFor (h : journal.sequence.toNat ≤ n) (hn : n + 1 < 2 ^ 64) (now : Int) (change : Change) :
    journal.sequence < (journal.entryFor now change).seq := by
  have hnext : (journal.entryFor now change).seq.toNat = journal.sequence.toNat + 1 :=
    toNat_sequence_record h hn now change
  rw [UInt64.lt_iff_toNat_lt]
  omega

theorem Journal.Numbered.record (h : journal.Numbered) (hsequence : journal.sequence.toNat ≤ n)
    (hn : n + 1 < 2 ^ 64) (now : Int) (change : Change) : (journal.record now change).Numbered := by
  intro key row hrow
  have hlt : journal.sequence < (journal.record now change).sequence := lt_entryFor hsequence hn now change
  simp only [Journal.record, ExtTreeMap.getElem?_insert, Std.compare_eq_iff_eq] at hrow
  split_ifs at hrow with hkey
  · subst hkey
    cases hrow
    exact ⟨Std.le_refl _, fun entry he => by cases he; rfl⟩
  · obtain ⟨hle, hentry⟩ := h key row hrow
    exact ⟨Std.le_of_lt (Std.lt_of_le_of_lt hle hlt), hentry⟩

end Numbers

end UMail.Storage
