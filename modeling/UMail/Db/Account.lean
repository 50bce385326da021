import Mathlib.Data.Int.Basic

namespace UMail.Db

variable {delta : Int}

def maxInt64 : Int := 9223372036854775807

structure AccountData where
  isActive : Bool
  quotaUsed : Int
  quotaLimit : Int
  deriving DecidableEq, Repr

inductive AccountError
  | fault
  | quotaOverflow
  | quotaExceeded
  deriving DecidableEq, Repr

-- Usage below zero counts as zero, and a release never goes below it.
def AccountData.incrementQuota (account : AccountData) (delta : Int) :
    Except AccountError AccountData :=
  let used := if account.quotaUsed < 0 then 0 else account.quotaUsed
  if delta > 0 ∧ used > maxInt64 - delta then .error .quotaOverflow
  else if delta > 0 ∧ account.quotaLimit > 0 ∧ used + delta > account.quotaLimit then
    .error .quotaExceeded
  else if delta < 0 ∧ used + delta < 0 then .ok { account with quotaUsed := 0 }
  else .ok { account with quotaUsed := used + delta }

-- Away from the clamps the counter moves by exactly the amount asked for.
theorem AccountData.incrementQuota_used {account account' : AccountData}
    (h : account.incrementQuota delta = .ok account') (hused : 0 ≤ account.quotaUsed)
    (hdelta : 0 ≤ account.quotaUsed + delta) :
    account'.quotaUsed = account.quotaUsed + delta := by
  have hnonneg : ¬ account.quotaUsed < 0 := by omega
  simp only [AccountData.incrementQuota, if_neg hnonneg] at h
  split_ifs at h
  · omega
  · cases h
    rfl

theorem AccountData.incrementQuota_release (account : AccountData) (h : delta ≤ 0) :
    ∃ account', account.incrementQuota delta = .ok account' := by
  unfold AccountData.incrementQuota
  dsimp only
  rw [if_neg fun hc => absurd hc.1 (by omega), if_neg fun hc => absurd hc.1 (by omega)]
  split_ifs <;> exact ⟨_, rfl⟩

end UMail.Db
