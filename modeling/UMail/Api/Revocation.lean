import UMail.Library.Sequence
import UMail.Storage.Keys
import Mathlib.Algebra.Order.Ring.Int
import Mathlib.Tactic.Common

namespace UMail.Api

open UMail.Storage (Bytes bytes)

section Model

-- The readings of the clock in one call, and whether its transactions fail. A
-- transaction that stores a token can fail before or after it decides to sweep.
structure TokenEnv where
  now : Int
  sweepAt : Int
  ordered : now ≤ sweepAt
  fault : Option Bool
  cleanupFault : Bool

-- The bucket of revoked tokens, in which a time that JSON cannot hold is an
-- entry without an expiry, and the map in memory.
structure TokenServer where
  revoked : Bytes → Option (Option Int)
  lastRevokedPurge : Int
  tokenBlacklist : Bytes → Option Int

def purgeExpiredRevoked (now : Int) (rows : Bytes → Option (Option Int)) : Bytes → Option (Option Int) :=
  fun key => match rows key with
    | some (some expiry) => if expiry < now then none else some (some expiry)
    | _ => none

def revokedPurgeEvery : Int := 60 * 10 ^ 9

def TokenEnv.purgeDue (env : TokenEnv) (s : TokenServer) : Bool :=
  revokedPurgeEvery ≤ env.now - s.lastRevokedPurge

variable (marshals : Int → Bool)

def storeRevokedToken (env : TokenEnv) (tokenHash : Bytes) (expiry : Int) (s : TokenServer) :
    Bytes → Option (Option Int) :=
  let rows := Function.update s.revoked tokenHash (some (if marshals expiry then some expiry else none))
  if env.purgeDue s then purgeExpiredRevoked env.sweepAt rows else rows

def revokeToken (env : TokenEnv) (tokenHash : Bytes) (expiry : Int) (s : TokenServer) : TokenServer :=
  match env.fault with
  | none =>
    { s with
      revoked := storeRevokedToken marshals env tokenHash expiry s
      lastRevokedPurge := if env.purgeDue s then env.now else s.lastRevokedPurge }
  | some reached =>
    { s with
      tokenBlacklist := Function.update s.tokenBlacklist tokenHash (some expiry)
      lastRevokedPurge := if reached && env.purgeDue s then env.now else s.lastRevokedPurge }

def isLive (now : Int) (row : Option (Option Int)) : Bool :=
  match row with
  | some (some expiry) => now ≤ expiry
  | _ => false

-- An entry that has expired is deleted in a transaction of its own.
def isTokenRevoked (env : TokenEnv) (tokenHash : Bytes) (s : TokenServer) : Bool × TokenServer :=
  if env.fault.isSome then (true, s)
  else if isLive env.now (s.revoked tokenHash) then (true, s)
  else (false, if env.cleanupFault then s else { s with revoked := Function.update s.revoked tokenHash none })

def cleanupExpiredTokens (env : TokenEnv) (s : TokenServer) : TokenServer :=
  if env.fault.isSome then s else { s with revoked := purgeExpiredRevoked env.now s.revoked }

inductive TokenCall
  | revoke (tokenHash : Bytes) (expiry : Int)
  | isRevoked (tokenHash : Bytes)
  | cleanup

def applyToken (step : TokenEnv × TokenCall) (s : TokenServer) : TokenServer :=
  match step.2 with
  | .revoke tokenHash expiry => revokeToken marshals step.1 tokenHash expiry s
  | .isRevoked tokenHash => (isTokenRevoked step.1 tokenHash s).2
  | .cleanup => cleanupExpiredTokens step.1 s

end Model

def emptyServer : TokenServer := ⟨fun _ => none, 0, fun _ => none⟩

-- The clock never goes back from one call to the next.
def Ticks (envs : List TokenEnv) : Prop := envs.Pairwise fun before after => before.sweepAt ≤ after.now

-- The token is put in the map that is not looked at when there is a database.
theorem revocation_forgotten : ¬ ∀ (s : TokenServer) (tokenHash : Bytes) (expiry : Int)
    (env probe : TokenEnv) (steps : List (TokenEnv × TokenCall)),
    Ticks (env :: steps.map Prod.fst ++ [probe]) →
    (∀ step ∈ steps, ∀ later, step.2 = .revoke tokenHash later → expiry ≤ later) → probe.now ≤ expiry →
    (isTokenRevoked probe tokenHash (Sequence.run (applyToken fun _ => true) steps
      (revokeToken (fun _ => true) env tokenHash expiry s))).1 = true := by
  intro h
  have hfalse := h emptyServer (bytes "t") 9 ⟨1, 1, le_rfl, some false, false⟩ ⟨2, 2, le_rfl, none, false⟩ []
    (by unfold Ticks; decide) (by simp) (by decide)
  revert hfalse
  decide

section Kept

variable {marshals : Int → Bool} {tokenHash : Bytes} {expiry now : Int}

-- The token is in the bucket until a time that is not before this one.
def RevokedUntil (tokenHash : Bytes) (expiry : Int) (s : TokenServer) : Prop :=
  ∃ until', s.revoked tokenHash = some (some until') ∧ expiry ≤ until'

-- A later call for the token keeps the expiry, in a form that can be stored.
def Prolongs (marshals : Int → Bool) (tokenHash : Bytes) (expiry : Int)
    (step : TokenEnv × TokenCall) : Prop :=
  ∀ later, step.2 = .revoke tokenHash later → expiry ≤ later ∧ marshals later

theorem purge_keeps {rows : Bytes → Option (Option Int)} {until' : Int}
    (h : rows tokenHash = some (some until')) (hnow : now ≤ until') :
    purgeExpiredRevoked now rows tokenHash = some (some until') := by
  simp [purgeExpiredRevoked, h, Int.not_lt.mpr hnow]

theorem revokedUntil_stored {env : TokenEnv} {s : TokenServer} {key : Bytes} {later until' : Int}
    (h : Function.update s.revoked key (some (if marshals later then some later else none)) tokenHash =
      some (some until')) (hle : expiry ≤ until') (hnow : env.sweepAt ≤ expiry) (hfault : env.fault = none) :
    RevokedUntil tokenHash expiry (revokeToken marshals env key later s) := by
  refine ⟨until', ?_, hle⟩
  by_cases hdue : env.purgeDue s
  · simpa only [revokeToken, hfault, storeRevokedToken, if_pos hdue] using purge_keeps h (hnow.trans hle)
  · simpa only [revokeToken, hfault, storeRevokedToken, if_neg hdue] using h

theorem RevokedUntil.step {s : TokenServer} {step : TokenEnv × TokenCall}
    (h : RevokedUntil tokenHash expiry s) (hprolongs : Prolongs marshals tokenHash expiry step)
    (hnow : step.1.sweepAt ≤ expiry) : RevokedUntil tokenHash expiry (applyToken marshals step s) := by
  obtain ⟨env, call⟩ := step
  obtain ⟨until', hrow, hle⟩ := h
  have hlive : env.now ≤ until' := (env.ordered.trans hnow).trans hle
  cases call with
  | revoke key later =>
    cases hfault : env.fault with
    | some reached => exact ⟨until', by simpa [applyToken, revokeToken, hfault] using hrow, hle⟩
    | none =>
      by_cases hkey : tokenHash = key
      · subst hkey
        obtain ⟨hlater, hmarshals⟩ := hprolongs later rfl
        exact revokedUntil_stored (by simp [hmarshals]) hlater hnow hfault
      · exact revokedUntil_stored (by rw [Function.update_of_ne hkey, hrow]) hle hnow hfault
  | isRevoked key =>
    refine ⟨until', ?_, hle⟩
    simp only [applyToken, isTokenRevoked]
    split_ifs with hfault hrevoked hcleanup
    · exact hrow
    · exact hrow
    · exact hrow
    · have hkey : tokenHash ≠ key := by
        rintro rfl
        simp [isLive, hrow, hlive] at hrevoked
      exact (Function.update_of_ne hkey _ _).trans hrow
  | cleanup =>
    refine ⟨until', ?_, hle⟩
    simp only [applyToken, cleanupExpiredTokens]
    split_ifs
    · exact hrow
    · exact purge_keeps hrow hlive

end Kept

-- A token whose revocation was stored is revoked until it expires.
theorem revocation_kept (marshals : Int → Bool) (s : TokenServer) (tokenHash : Bytes) (expiry : Int)
    (env probe : TokenEnv) (steps : List (TokenEnv × TokenCall))
    (hclock : Ticks (env :: steps.map Prod.fst ++ [probe])) (hstored : env.fault = none ∧ marshals expiry)
    (hlater : ∀ step ∈ steps, Prolongs marshals tokenHash expiry step) (hnow : probe.now ≤ expiry) :
    (isTokenRevoked probe tokenHash
      (Sequence.run (applyToken marshals) steps (revokeToken marshals env tokenHash expiry s))).1 = true := by
  have hbefore : ∀ earlier ∈ env :: steps.map Prod.fst, earlier.sweepAt ≤ expiry := fun earlier hmem =>
    ((List.pairwise_append.mp hclock).2.2 earlier hmem probe (List.mem_singleton.mpr rfl)).trans hnow
  have hgood : Sequence.RunAll (applyToken marshals)
      (fun _ step => Prolongs marshals tokenHash expiry step ∧ step.1.sweepAt ≤ expiry) steps
      (revokeToken marshals env tokenHash expiry s) := by
    refine Sequence.RunAll.of_forall fun before step after he => ?_
    have hmem : step ∈ steps := by simp [he]
    exact ⟨hlater step hmem, hbefore _ (List.mem_cons_of_mem _ (List.mem_map_of_mem hmem))⟩
  have hstart : RevokedUntil tokenHash expiry (revokeToken marshals env tokenHash expiry s) :=
    revokedUntil_stored (by simp [hstored.2]) le_rfl (hbefore env List.mem_cons_self) hstored.1
  obtain ⟨until', hrow, hle⟩ := hgood.invariant _ (fun _ _ hgood h => h.step hgood.1 hgood.2) hstart
  have hlive : isLive probe.now (some (some until')) = true := decide_eq_true (hnow.trans hle)
  unfold isTokenRevoked
  split_ifs with _ hrevoked
  · rfl
  · rfl
  · exact absurd hlive (hrow ▸ hrevoked)

theorem revocation_kept_swept :
    (isTokenRevoked ⟨5, 5, by decide, none, false⟩ (bytes "t")
      (Sequence.run (applyToken fun _ => true)
        [(⟨3, 3, by decide, none, false⟩, .revoke (bytes "u") 1),
          (⟨4, 4, by decide, none, false⟩, .cleanup)]
        (revokeToken (fun _ => true) ⟨1, 2, by decide, none, false⟩ (bytes "t") 9 emptyServer))).1 = true :=
  revocation_kept (fun _ => true) emptyServer (bytes "t") 9 _ _ _ (by unfold Ticks; decide) ⟨rfl, rfl⟩
    (by simp [Prolongs, show bytes "u" ≠ bytes "t" by decide]) (by decide)

end UMail.Api
