import UMail.Db.Rows

namespace UMail.Db

open Text (CaseTable)
open UMail.Storage (bytes)

def Op.writesAccount : Op → Bool
  | .updateAccount _ | .mutateAccount _ _ _ | .mutateAccountKeepAdmin _ _ _
  | .incrementQuota _ _ _ | .consumeTOTPStep _ _ _ _ => true
  | _ => false

def Call.acceptedDelta (key : Text) (db : Directory) (call : Call) : Option Int :=
  match call.op with
  | .incrementQuota domain localPart delta =>
    match (db.incrementQuota call.fault domain localPart delta).1 with
    | .ok _ => if accountKey domain localPart = key then some delta else none
    | .error _ => none
  | _ => none

def Call.acceptedStep (key : Text) (db : Directory) (call : Call) : Option Int :=
  match call.op with
  | .consumeTOTPStep domain localPart expectedLast newStep =>
    match (db.consumeTOTPStep call.fault domain localPart expectedLast newStep).1 with
    | .ok true => if accountKey domain localPart = key then some newStep else none
    | _ => none
  | _ => none

def accepted (table : CaseTable) (gets : Directory → Call → Option Int) :
    List Call → Directory → List Int
  | [], _ => []
  | call :: calls, db => (gets db call).toList ++ accepted table gets calls (call.apply table db)

def addUsage (used delta : Int) : Int := max 0 (max 0 used + delta)

structure CountersKept (table : CaseTable) (key : Text) (db : Directory) (start : AccountRow)
    (calls : List Call) : Prop where
  usage : ∃ row, (run table calls db).accounts[key]? = some row ∧
    row.quotaUsed = (accepted table (Call.acceptedDelta key) calls db).foldl addUsage start.quotaUsed
  forward : ∀ before after rest, calls = before ++ after ++ rest →
    ∀ row row', (run table before db).accounts[key]? = some row →
      (run table (before ++ after) db).accounts[key]? = some row' →
      row.totpLastUsedStep ≤ row'.totpLastUsedStep ∧ row.tokensValidAfter ≤ row'.tokensValidAfter
  once : (accepted table (Call.acceptedStep key) calls db).Nodup
  bounded : ∀ before call rest delta, calls = before ++ call :: rest →
    call.acceptedDelta key (run table before db) = some delta → 0 < delta →
    ∀ row, (run table (before ++ [call]) db).accounts[key]? = some row →
      row.quotaUsed ≤ maxInt64 ∧ (0 < row.quotaLimit → row.quotaUsed ≤ row.quotaLimit)

structure Advance (row row' : AccountRow) (delta step : Option Int) : Prop where
  usage : row'.quotaUsed = delta.toList.foldl addUsage row.quotaUsed
  steps : row.totpLastUsedStep ≤ row'.totpLastUsedStep
  sessions : row.tokensValidAfter ≤ row'.tokensValidAfter
  fresh : ∀ n, step = some n → row.totpLastUsedStep < n ∧ row'.totpLastUsedStep = n
  bounded : ∀ d, delta = some d → 0 < d →
    row'.quotaUsed ≤ maxInt64 ∧ (0 < row'.quotaLimit → row'.quotaUsed ≤ row'.quotaLimit)

section Rows

variable {table : CaseTable} {db : Directory} {key : Text} {row : AccountRow} {delta newStep : Int}

theorem Advance.refl : Advance row row none none :=
  ⟨rfl, le_rfl, le_rfl, by simp, by simp⟩

theorem Advance.marshal {row' : AccountRow} {delta step : Option Int}
    (h : Advance row row' delta step) : Advance row row'.marshal delta step :=
  ⟨h.usage, h.steps, h.sessions, h.fresh, h.bounded⟩

theorem advance_carryOver (account : AccountRow) : Advance row (row.carryOver account) none none := by
  refine ⟨rfl, ?_, ?_, by simp, by simp⟩
  · simp only [AccountRow.carryOver]
    split_ifs <;> omega
  · simp only [AccountRow.carryOver]
    split_ifs <;> omega

theorem advance_restore (account : AccountRow) : Advance row (row.restore account) none none := by
  refine ⟨rfl, ?_, ?_, by simp, by simp⟩
  · simp only [AccountRow.restore]
    split_ifs <;> omega
  · simp only [AccountRow.restore]
    split_ifs <;> omega

theorem incrementQuota_eq_ok {account data : AccountData}
    (h : account.incrementQuota delta = .ok data) :
    data.quotaUsed = addUsage account.quotaUsed delta ∧
      (0 < delta → data.quotaUsed ≤ maxInt64 ∧
        (0 < account.quotaLimit → data.quotaUsed ≤ account.quotaLimit)) := by
  simp only [AccountData.incrementQuota] at h
  unfold addUsage
  split_ifs at h <;> cases h <;> dsimp only <;> omega

theorem advance_quota {data : AccountData} (h : row.toAccountData.incrementQuota delta = .ok data) :
    Advance row { row with quotaUsed := data.quotaUsed } (some delta) none := by
  obtain ⟨husage, hbounded⟩ := incrementQuota_eq_ok h
  refine ⟨husage, le_rfl, le_rfl, by simp, ?_⟩
  rintro d ⟨⟩ hpos
  exact hbounded hpos

theorem advance_step (h : row.totpLastUsedStep < newStep) :
    Advance row { row with totpLastUsedStep := newStep } none (some newStep) := by
  refine ⟨rfl, h.le, le_rfl, ?_, by simp⟩
  rintro n ⟨⟩
  exact ⟨h, rfl⟩

theorem advance_put {key' : Text} {stored row' : AccountRow} {delta step : Option Int}
    (hstored : db.accounts[key']? = some stored) (hadvance : Advance stored row' delta step)
    (hrow : db.accounts[key]? = some row) :
    ∃ after, (db.putAccount key' row').accounts[key]? = some after ∧
      Advance row after (if key' = key then delta else none) (if key' = key then step else none) := by
  by_cases hkey : key' = key
  · subst hkey
    rw [hrow] at hstored
    cases hstored
    refine ⟨row'.marshal, by rw [accounts_putAccount, if_pos rfl], ?_⟩
    rw [if_pos rfl, if_pos rfl]
    exact hadvance.marshal
  · refine ⟨row, by rw [accounts_putAccount, if_neg hkey, hrow], ?_⟩
    rw [if_neg hkey, if_neg hkey]
    exact .refl

theorem incrementQuota_advance (fault : Bool) (domain localPart : Text)
    (hrow : db.accounts[key]? = some row) :
    ∃ after, (db.incrementQuota fault domain localPart delta).2.accounts[key]? = some after ∧
      Advance row after (Call.acceptedDelta key db ⟨.incrementQuota domain localPart delta, fault⟩)
        none := by
  unfold Call.acceptedDelta Directory.incrementQuota Directory.update
  cases fault with
  | true => exact ⟨row, hrow, .refl⟩
  | false =>
    dsimp only
    rcases htx : incrementQuotaTx domain localPart delta db with e | out
    · exact ⟨row, hrow, .refl⟩
    simp only [incrementQuotaTx] at htx
    split at htx
    · cases htx
    rename_i account hstored
    split at htx
    · cases htx
    rename_i data hquota
    cases htx
    have hput := advance_put hstored (advance_quota hquota) hrow
    rwa [ite_self] at hput

theorem consumeTOTPStep_advance (fault : Bool) (domain localPart : Text)
    {expectedLast : Int} (hrow : db.accounts[key]? = some row) :
    ∃ after, (db.consumeTOTPStep fault domain localPart expectedLast newStep).2.accounts[key]? =
        some after ∧ Advance row after none
      (Call.acceptedStep key db ⟨.consumeTOTPStep domain localPart expectedLast newStep, fault⟩) := by
  unfold Call.acceptedStep Directory.consumeTOTPStep Directory.update
  cases fault with
  | true => exact ⟨row, hrow, .refl⟩
  | false =>
    dsimp only
    rcases htx : consumeTOTPStepTx domain localPart expectedLast newStep db with e | out
    · exact ⟨row, hrow, .refl⟩
    simp only [consumeTOTPStepTx] at htx
    split at htx
    · cases htx
    rename_i account hstored
    split_ifs at htx with hstale
    · cases htx
      exact ⟨row, hrow, .refl⟩
    cases htx
    simp only [not_or, not_not, not_le] at hstale
    obtain ⟨rfl, hstep⟩ := hstale
    have hput := advance_put hstored (advance_step hstep) hrow
    rwa [ite_self] at hput

-- A change that is no advance of its own leaves the counters to the snapshot.
theorem advance_of_change {op : Op} {db' : Directory} (h : Change table db op db')
    (hop : op.writesAccount = true) (hquota : ∀ d l delta, op ≠ .incrementQuota d l delta)
    (hstep : ∀ d l e n, op ≠ .consumeTOTPStep d l e n) (hrow : db.accounts[key]? = some row) :
    ∃ after, db'.accounts[key]? = some after ∧ Advance row after none none := by
  cases h with
  | kept => exact ⟨row, hrow, .refl⟩
  | @accountUpdated account stored hstored =>
    have hput := advance_put hstored (advance_carryOver account) hrow
    rwa [ite_self] at hput
  | @accountMutated domain localPart fn stored account hstored
  | @accountMutatedKeepAdmin domain localPart fn stored account hstored =>
    have hput := advance_put hstored (advance_restore account) hrow
    rwa [ite_self] at hput
  | quotaMoved => exact absurd rfl (hquota _ _ _)
  | stepConsumed => exact absurd rfl (hstep _ _ _ _)
  | accountCreated hcreate => rcases hcreate with rfl | rfl <;> cases hop
  | _ => cases hop

theorem Call.advance (table : CaseTable) {call : Call} (hop : call.op.writesAccount = true)
    (hrow : db.accounts[key]? = some row) :
    ∃ after, (call.apply table db).accounts[key]? = some after ∧
      Advance row after (call.acceptedDelta key db) (call.acceptedStep key db) := by
  have hchange := call.change table db
  obtain ⟨op, fault⟩ := call
  cases op with
  | incrementQuota domain localPart delta =>
    exact incrementQuota_advance fault domain localPart hrow
  | consumeTOTPStep domain localPart expectedLast newStep =>
    exact consumeTOTPStep_advance fault domain localPart hrow
  | updateAccount | mutateAccount | mutateAccountKeepAdmin =>
    exact advance_of_change hchange rfl (by simp) (by simp) hrow
  | _ => cases hop

end Rows

section Runs

variable {db : Directory} {key : Text} {row : AccountRow} {calls : List Call}

-- The counters after a whole sequence. A step number that is taken is new, and
-- is not behind the last one.
theorem run_advance {table : CaseTable} (hops : ∀ call ∈ calls, call.op.writesAccount = true)
    (hrow : db.accounts[key]? = some row) :
    ∃ after, (run table calls db).accounts[key]? = some after ∧
      after.quotaUsed =
        (accepted table (Call.acceptedDelta key) calls db).foldl addUsage row.quotaUsed ∧
      row.totpLastUsedStep ≤ after.totpLastUsedStep ∧
      row.tokensValidAfter ≤ after.tokensValidAfter ∧
      (∀ n ∈ accepted table (Call.acceptedStep key) calls db, row.totpLastUsedStep < n) ∧
      (accepted table (Call.acceptedStep key) calls db).Nodup := by
  induction calls generalizing db row with
  | nil => exact ⟨row, hrow, rfl, le_rfl, le_rfl, by simp [accepted], List.nodup_nil⟩
  | cons call calls ih =>
    obtain ⟨next, hnext, hadvance⟩ :=
      Call.advance table (hops call List.mem_cons_self) hrow
    obtain ⟨after, hafter, husage, hsteps, hsessions, hfresh, hnodup⟩ :=
      ih (fun other h => hops other (List.mem_cons_of_mem _ h)) hnext
    refine ⟨after, hafter, ?_, hadvance.steps.trans hsteps, hadvance.sessions.trans hsessions,
      ?_, ?_⟩
    · rw [accepted, List.foldl_append, ← hadvance.usage, husage]
    · intro n hn
      rw [accepted, List.mem_append, Option.mem_toList] at hn
      rcases hn with hn | hn
      · exact (hadvance.fresh n hn).1
      · exact hadvance.steps.trans_lt (hfresh n hn)
    · rw [accepted]
      rcases hstep : call.acceptedStep key db with _ | n
      · exact hnodup
      rw [Option.toList_some, List.singleton_append, List.nodup_cons]
      refine ⟨fun hmem => ?_, hnodup⟩
      have hlater := hfresh n hmem
      rw [(hadvance.fresh n hstep).2] at hlater
      exact lt_irrefl n hlater

theorem countersKept (table : CaseTable) (key : Text) (db : Directory) (start : AccountRow)
    (calls : List Call) (hstart : db.accounts[key]? = some start)
    (hops : ∀ call ∈ calls, call.op.writesAccount = true) :
    CountersKept table key db start calls where
  usage := by
    obtain ⟨after, hafter, husage, _⟩ := run_advance hops hstart
    exact ⟨after, hafter, husage⟩
  forward := by
    rintro before after rest rfl row row' hrow hrow'
    simp only [List.mem_append] at hops
    obtain ⟨last, hlast, _, hsteps, hsessions, _⟩ :=
      run_advance (fun call h => hops call (.inl (.inr h))) hrow
    rw [run_append, hlast] at hrow'
    cases hrow'
    exact ⟨hsteps, hsessions⟩
  once := by
    obtain ⟨_, _, _, _, _, _, hnodup⟩ := run_advance hops hstart
    exact hnodup
  bounded := by
    rintro before call rest delta rfl hdelta hpos row hrow
    obtain ⟨earlier, hearlier, _⟩ :=
      run_advance (fun other h => hops other (List.mem_append_left _ h)) hstart
    obtain ⟨after, hafter, hadvance⟩ :=
      Call.advance table (hops call (by simp)) hearlier
    rw [run_append] at hrow
    have hsame : after = row := Option.some.inj (hafter.symm.trans hrow)
    subst hsame
    exact hadvance.bounded delta hdelta hpos

def limited : AccountRow :=
  { isActive := true, quotaUsed := 0, quotaLimit := 10, localPart := bytes "ann",
    domain := bytes "d", isAdmin := false, totpLastUsedStep := 0, tokensValidAfter := 0,
    lastLoginAt := 0 }

def staleWrites : List Call :=
  [⟨.incrementQuota (bytes "d") (bytes "ann") 7, false⟩,
    ⟨.consumeTOTPStep (bytes "d") (bytes "ann") 0 5, false⟩,
    ⟨.updateAccount limited, false⟩,
    ⟨.consumeTOTPStep (bytes "d") (bytes "ann") 0 5, false⟩,
    ⟨.incrementQuota (bytes "d") (bytes "ann") 7, false⟩]

def limitedOnly : Directory := Directory.empty.putAccount (bytes "d/ann") limited

theorem countersKept_stale_writes :
    accepted Text.latin (Call.acceptedDelta (bytes "d/ann")) staleWrites limitedOnly = [7] ∧
      accepted Text.latin (Call.acceptedStep (bytes "d/ann")) staleWrites limitedOnly = [5] ∧
      CountersKept Text.latin (bytes "d/ann") limitedOnly limited staleWrites :=
  ⟨by decide, by decide,
    countersKept Text.latin (bytes "d/ann") limitedOnly limited staleWrites (by decide)
      (by decide)⟩

end Runs

end UMail.Db
