import UMail.Api.Revocation
import UMail.Library.Base64

namespace UMail.Api

open Base64 (rawURL)
open UMail.Storage (Bytes bytes)

section Model

-- The header and the claims in the text that is signed, and the third segment.
structure TokenString where
  signed : Bytes
  signature : Bytes
  deriving DecidableEq, Repr

-- Without strict decoding the bits that the last letter leaves over may be anything.
def decodeGroups : List Nat → Option Bytes
  | w :: x :: y :: z :: s =>
    (decodeGroups s).map
      ([.ofNat (w * 4 + x / 16), .ofNat (x % 16 * 16 + y / 4), .ofNat (y % 4 * 64 + z)] ++ ·)
  | [w, x, y] => some (Base64.lastThree w x y)
  | [w, x] => some (Base64.lastTwo w x)
  | [_] => none
  | [] => some []

def decodeSegment (s : Bytes) : Option Bytes :=
  ((s.filter fun c => c ≠ 13 ∧ c ≠ 10).mapM rawURL.value).bind decodeGroups

-- The signature, the expiry and the subject of a header and claims, and the hash of a token's text,
-- which tells apart the tokens that are spelled as they are issued.
structure Signing where
  mac : Bytes → Bytes
  exp : Bytes → Int
  sub : Bytes → Bytes
  hash : TokenString → Bytes
  separate : ∀ x y, hash ⟨x, Base64.encodeToString rawURL (mac x)⟩ =
    hash ⟨y, Base64.encodeToString rawURL (mac y)⟩ → x = y

variable (jwt : Signing)

def Signing.issued (signed : Bytes) : TokenString := ⟨signed, Base64.encodeToString rawURL (jwt.mac signed)⟩

-- jwt.Parse, by its own reading of the clock.
def Signing.parses (parsedAt : Int) (t : TokenString) : Bool :=
  decodeSegment t.signature = some (jwt.mac t.signed) && parsedAt < jwt.exp t.signed

structure Request where
  cookie : Option TokenString
  bearer : Option TokenString

-- The token that a request is authenticated by.
def Request.token (r : Request) : Option TokenString := r.cookie.or r.bearer

-- That token, and a Bearer token beside it that is of the same subject.
def logoutTokens (parsedAt : Int) (r : Request) : List TokenString :=
  r.token.toList ++ (r.bearer.filter fun t => r.token ≠ some t && jwt.parses parsedAt t &&
    jwt.sub t.signed ≠ [] && r.token.map (fun used => jwt.sub used.signed) = some (jwt.sub t.signed)).toList

def refreshTokens (r : Request) : List TokenString :=
  r.cookie.toList ++ (r.bearer.filter fun t => r.cookie ≠ some t).toList

-- The tokens whose sessions were ended, those a successor was issued for, and those that the
-- refresh in progress has looked for.
structure Sessions where
  tokens : TokenServer
  clock : Int
  ended : List Bytes
  successors : List Bytes
  refreshing : Option (List TokenString)

def Sessions.perform (env : TokenEnv) (call : TokenCall) (s : Sessions) : Sessions :=
  { s with tokens := applyToken (fun _ => true) (env, call) s.tokens, clock := env.sweepAt }

def look (step : TokenEnv × TokenString) (s : Sessions) : Sessions :=
  s.perform step.1 (.isRevoked (jwt.hash step.2))

def revoke (step : TokenEnv × TokenString) (s : Sessions) : Sessions :=
  { s.perform step.1 (.revoke (jwt.hash step.2) (jwt.exp step.2.signed)) with
    ended := step.2.signed :: s.ended }

-- Each token has a call of its own, with its readings of the clock.
def calls (envs : TokenString → TokenEnv) (ts : List TokenString) : List (TokenEnv × TokenString) :=
  ts.map fun t => (envs t, t)

def handleLogout (envs : TokenString → TokenEnv) (parsedAt : Int) (r : Request) (s : Sessions) : Sessions :=
  Sequence.run (revoke jwt) (calls envs (logoutTokens jwt parsedAt r)) s

-- Whether one of the tokens is revoked. The first one that is ends the loop.
def lookFor : List (TokenEnv × TokenString) → Sessions → Bool × Sessions
  | [], s => (false, s)
  | step :: steps, s =>
    if (isTokenRevoked step.1 (jwt.hash step.2) s.tokens).1 then (true, look jwt step s)
    else lookFor steps (look jwt step s)

-- A refresh up to its last look-up, and the rest of it. Another one waits for the lock meanwhile.
def handleRefresh (envs : TokenString → TokenEnv) (r : Request) (s : Sessions) : Sessions :=
  if s.refreshing.isSome then s
  else
    let found := lookFor jwt (calls envs (refreshTokens r)) s
    if found.1 then found.2 else { found.2 with refreshing := some (refreshTokens r) }

def finishRefresh (envs : TokenString → TokenEnv) (s : Sessions) : Sessions :=
  match s.refreshing with
  | none => s
  | some old =>
    { Sequence.run (revoke jwt) (calls envs old) s with
      successors := old.map TokenString.signed ++ s.successors
      refreshing := none }

inductive SessionCall
  | request (env : TokenEnv) (t : TokenString)
  | logout (envs : TokenString → TokenEnv) (parsedAt : Int) (r : Request)
  | refresh (envs : TokenString → TokenEnv) (r : Request)
  | finish (envs : TokenString → TokenEnv)
  | cleanup (env : TokenEnv)

def applySession (call : SessionCall) (s : Sessions) : Sessions :=
  match call with
  | .request env t => look jwt (env, t) s
  | .logout envs parsedAt r => handleLogout jwt envs parsedAt r s
  | .refresh envs r => handleRefresh jwt envs r s
  | .finish envs => finishRefresh jwt envs s
  | .cleanup env => s.perform env .cleanup

-- The account is taken to be live. The clock is read once by jwt.Parse and once for the look-up.
def authMiddleware (parsedAt : Int) (env : TokenEnv) (r : Request) (s : Sessions) : Bool :=
  match r.token with
  | none => false
  | some t => jwt.parses parsedAt t && !(isTokenRevoked env (jwt.hash t) s.tokens).1

end Model

-- The calls succeed, in the order of the clock.
def InTime (s : Sessions) (step : TokenEnv × TokenString) : Prop :=
  step.1.fault = none ∧ s.clock ≤ step.1.now

def Timely (jwt : Signing) (s : Sessions) : SessionCall → Prop
  | .request env _ | .cleanup env => env.fault = none ∧ s.clock ≤ env.now
  | .logout envs parsedAt r =>
    Sequence.RunAll (revoke jwt) InTime (calls envs (logoutTokens jwt parsedAt r)) s
  | .refresh envs r => Sequence.RunAll (look jwt) InTime (calls envs (refreshTokens r)) s
  | .finish envs => ∀ old ∈ s.refreshing, Sequence.RunAll (revoke jwt) InTime (calls envs old) s

def Signing.Spelled (jwt : Signing) (t : TokenString) : Prop := jwt.issued t.signed = t

-- Every token is presented as it was issued, and a refresh looks for it before it has expired.
def Orderly (jwt : Signing) (s : Sessions) (call : SessionCall) : Prop :=
  Timely jwt s call ∧ match call with
    | .logout _ parsedAt r => ∀ t ∈ logoutTokens jwt parsedAt r, jwt.Spelled t
    | .refresh envs r => ∀ t ∈ refreshTokens r, jwt.Spelled t ∧ (envs t).now ≤ jwt.exp t.signed
    | _ => True

def begun (tokens : TokenServer) (clock : Int) : Sessions := ⟨tokens, clock, [], [], none⟩

section Divergence

def zeroMac : Signing where
  mac _ := .replicate 32 0
  exp _ := 9
  sub _ := bytes "u"
  hash t := t.signed ++ bytes "." ++ t.signature
  separate _ _ h := List.append_cancel_right (List.append_cancel_right h)

def respelled : TokenString := ⟨bytes "h.c", .replicate 42 65 ++ bytes "B"⟩

def reading (now : Int) : TokenEnv := ⟨now, now, Int.le_refl now, none, false⟩

def presented : Request := ⟨none, some (zeroMac.issued (bytes "h.c"))⟩

-- The last letter of a signature has two bits that are not read.
theorem logout_respelled : ¬ ∀ (jwt : Signing) (tokens : TokenServer) (clock : Int)
    (calls : List SessionCall) (parsedAt : Int) (probe : TokenEnv) (r : Request),
    Sequence.RunAll (applySession jwt) (Timely jwt) calls (begun tokens clock) →
    (Sequence.run (applySession jwt) calls (begun tokens clock)).clock ≤ parsedAt → parsedAt ≤ probe.now →
    (∃ t ∈ r.token, t.signed ∈ (Sequence.run (applySession jwt) calls (begun tokens clock)).ended) →
    authMiddleware jwt parsedAt probe r (Sequence.run (applySession jwt) calls (begun tokens clock)) =
      false := by
  intro h
  have hfalse := h zeroMac emptyServer 0 [.logout (fun _ => reading 2) 1 presented] 3 (reading 3)
    ⟨none, some respelled⟩ ⟨⟨⟨rfl, by decide⟩, trivial⟩, trivial⟩ (by decide) (by decide)
    ⟨respelled, rfl, by decide⟩
  revert hfalse
  decide

end Divergence

section Ended

variable {jwt : Signing} {s : Sessions} {env : TokenEnv} {envs : TokenString → TokenEnv} {x : Bytes}
  {ts : List TokenString}

def Revoked (jwt : Signing) (s : Sessions) : Prop :=
  ∀ x ∈ s.ended, s.clock ≤ jwt.exp x → RevokedUntil (jwt.hash (jwt.issued x)) (jwt.exp x) s.tokens

theorem Revoked.perform (h : Revoked jwt s) (hclock : s.clock ≤ env.now) {call : TokenCall}
    (hcall : ∀ x later, call = .revoke (jwt.hash (jwt.issued x)) later → jwt.exp x ≤ later) :
    Revoked jwt (s.perform env call) := by
  intro x hx hexp
  have hbefore : s.clock ≤ jwt.exp x := hclock.trans (env.ordered.trans hexp)
  exact (h x hx hbefore).step (fun later he => ⟨hcall x later he, rfl⟩) hexp

theorem Revoked.revoke (h : Revoked jwt s) {t : TokenString} (htime : InTime s (env, t))
    (ht : jwt.Spelled t) : Revoked jwt (revoke jwt (env, t) s) := by
  have hcall : ∀ x later, TokenCall.revoke (jwt.hash t) (jwt.exp t.signed) =
      .revoke (jwt.hash (jwt.issued x)) later → jwt.exp x ≤ later := by
    intro x later he
    obtain ⟨hhash, rfl⟩ := TokenCall.revoke.inj he
    rw [← ht] at hhash
    rw [jwt.separate _ _ hhash]
  intro x hx hexp
  rcases List.mem_cons.mp hx with rfl | hx
  · rw [ht]
    exact revokedUntil_stored (by simp) le_rfl hexp htime.1
  · exact h.perform htime.2 hcall x hx hexp

theorem Revoked.found (h : Revoked jwt s) (hx : x ∈ s.ended) (hclock : s.clock ≤ env.now)
    (hexp : env.now ≤ jwt.exp x) : (isTokenRevoked env (jwt.hash (jwt.issued x)) s.tokens).1 = true := by
  obtain ⟨until', hrow, hle⟩ := h x hx (hclock.trans hexp)
  have hlive : isLive env.now (some (some until')) = true := decide_eq_true (hexp.trans hle)
  unfold isTokenRevoked
  split_ifs with _ hrevoked
  · rfl
  · rfl
  · exact absurd hlive (hrow ▸ hrevoked)

theorem Revoked.revokeAll (h : Revoked jwt s) (hts : ∀ t ∈ ts, jwt.Spelled t)
    (htime : Sequence.RunAll (Api.revoke jwt) InTime (calls envs ts) s) :
    let after := Sequence.run (Api.revoke jwt) (calls envs ts) s
    Revoked jwt after ∧ after.successors = s.successors ∧ after.refreshing = s.refreshing ∧
      ts.map TokenString.signed ++ s.ended ⊆ after.ended := by
  induction ts generalizing s with
  | nil => exact ⟨h, rfl, rfl, List.Subset.refl _⟩
  | cons t ts ih =>
    obtain ⟨ht, hts⟩ := List.forall_mem_cons.mp hts
    obtain ⟨hrevoked, hsuccessors, hrefreshing, hended⟩ := ih (h.revoke htime.1 ht) hts htime.2
    refine ⟨hrevoked, hsuccessors, hrefreshing, fun x hx => hended ?_⟩
    simp only [Api.revoke, List.map_cons, List.cons_append, List.mem_cons, List.mem_append] at hx ⊢
    tauto

-- None of the tokens that are looked for in time has been ended.
theorem Revoked.lookFor (h : Revoked jwt s)
    (hts : ∀ t ∈ ts, jwt.Spelled t ∧ (envs t).now ≤ jwt.exp t.signed)
    (htime : Sequence.RunAll (look jwt) InTime (calls envs ts) s) :
    let found := lookFor jwt (calls envs ts) s
    Revoked jwt found.2 ∧ found.2.successors = s.successors ∧ found.2.refreshing = s.refreshing ∧
      found.2.ended = s.ended ∧ (found.1 = false → ∀ t ∈ ts, t.signed ∉ s.ended) := by
  induction ts generalizing s with
  | nil => exact ⟨h, rfl, rfl, rfl, by simp⟩
  | cons t ts ih =>
    obtain ⟨⟨hspelled, hexp⟩, hts⟩ := List.forall_mem_cons.mp hts
    have hseen : Revoked jwt (look jwt (envs t, t) s) := h.perform htime.1.2 (by simp)
    rw [calls, List.map_cons, Api.lookFor]
    split_ifs with hrevoked
    · exact ⟨hseen, rfl, rfl, rfl, by simp⟩
    obtain ⟨hrest, hsuccessors, hrefreshing, hended, hnone⟩ := ih hseen hts htime.2
    refine ⟨hrest, hsuccessors, hrefreshing, hended, fun hfree => List.forall_mem_cons.mpr ⟨fun hmem => ?_,
      hnone hfree⟩⟩
    have hfound := h.found hmem htime.1.2 hexp
    rw [hspelled] at hfound
    exact hrevoked hfound

structure Ended (jwt : Signing) (s : Sessions) : Prop where
  revoked : Revoked jwt s
  ended : s.successors ⊆ s.ended
  once : s.successors.Nodup
  pending : ∀ old ∈ s.refreshing, (∀ t ∈ old, jwt.Spelled t) ∧
    (old.map TokenString.signed ++ s.successors).Nodup

theorem nodup_refreshTokens {r : Request} (h : ∀ t ∈ refreshTokens r, jwt.Spelled t) :
    ((refreshTokens r).map TokenString.signed).Nodup := by
  refine List.Nodup.map_on (fun t ht t' ht' he => ?_) ?_
  · rw [← h t ht, ← h t' ht', he]
  · obtain ⟨cookie, bearer⟩ := r
    cases cookie <;> cases bearer <;> simp [refreshTokens, Option.filter, apply_ite]

theorem Ended.step (h : Ended jwt s) {call : SessionCall} (hcall : Orderly jwt s call) :
    Ended jwt (applySession jwt call s) := by
  obtain ⟨htime, hcall⟩ := hcall
  cases call with
  | request env t => exact ⟨h.revoked.perform htime.2 (by simp), h.ended, h.once, h.pending⟩
  | cleanup env => exact ⟨h.revoked.perform htime.2 (by simp), h.ended, h.once, h.pending⟩
  | logout envs parsedAt r =>
    obtain ⟨hrevoked, hsuccessors, hrefreshing, hended⟩ := h.revoked.revokeAll hcall htime
    refine ⟨hrevoked, ?_, ?_, ?_⟩
    · exact fun x hx => hended (List.mem_append_right _ (h.ended (hsuccessors ▸ hx)))
    · exact hsuccessors ▸ h.once
    · exact hsuccessors ▸ hrefreshing ▸ h.pending
  | refresh envs r =>
    simp only [applySession, handleRefresh]
    split_ifs with hlock hfound
    · exact h
    all_goals
      obtain ⟨hrevoked, hsuccessors, hrefreshing, hended, hnone⟩ := h.revoked.lookFor hcall htime
      have hsub : (lookFor jwt (calls envs (refreshTokens r)) s).2.successors ⊆
          (lookFor jwt (calls envs (refreshTokens r)) s).2.ended := by
        rw [hsuccessors, hended]
        exact h.ended
    · exact ⟨hrevoked, hsub, hsuccessors ▸ h.once, hsuccessors ▸ hrefreshing ▸ h.pending⟩
    · refine ⟨hrevoked, hsub, hsuccessors ▸ h.once, ?_⟩
      rintro old ⟨⟩
      refine ⟨fun t ht => (hcall t ht).1, hsuccessors ▸ List.nodup_append.mpr
        ⟨nodup_refreshTokens fun t ht => (hcall t ht).1, h.once, ?_⟩⟩
      rintro x hx y hy rfl
      obtain ⟨t, ht, rfl⟩ := List.mem_map.mp hx
      exact hnone (by simpa using hfound) t ht (h.ended hy)
  | finish envs =>
    simp only [applySession, finishRefresh]
    split
    · exact h
    rename_i old hold
    obtain ⟨hspelled, hnodup⟩ := h.pending old hold
    obtain ⟨hrevoked, -, -, hended⟩ := h.revoked.revokeAll hspelled (htime old hold)
    refine ⟨hrevoked, fun x hx => hended ?_, hnodup, by simp⟩
    rw [List.mem_append] at hx ⊢
    exact hx.imp_right fun hx => h.ended hx

theorem logout_ends (jwt : Signing) (tokens : TokenServer) (clock : Int) (calls : List SessionCall)
    (hcalls : Sequence.RunAll (applySession jwt) (Orderly jwt) calls (begun tokens clock)) :
    let s := Sequence.run (applySession jwt) calls (begun tokens clock)
    (∀ (parsedAt : Int) (probe : TokenEnv) (r : Request), s.clock ≤ probe.now →
      (∀ t ∈ r.token, jwt.Spelled t ∧ t.signed ∈ s.ended ∧ probe.now ≤ jwt.exp t.signed) →
      authMiddleware jwt parsedAt probe r s = false) ∧ s.successors.Nodup := by
  have hstart : Ended jwt (begun tokens clock) :=
    ⟨fun _ hx => absurd hx List.not_mem_nil, List.Subset.refl _, List.nodup_nil, by simp [begun]⟩
  have h := hcalls.invariant (Ended jwt) (fun _ _ hcall h => h.step hcall) hstart
  refine ⟨fun parsedAt probe r hprobe ht => ?_, h.once⟩
  unfold authMiddleware
  split
  · rfl
  · rename_i t hr
    obtain ⟨hspelled, hended, hexp⟩ := ht t hr
    have hfound := h.revoked.found hended hprobe hexp
    rw [hspelled] at hfound
    simp [hfound]

def refreshed : List SessionCall :=
  [.refresh (fun _ => reading 1) presented, .request (reading 2) (zeroMac.issued (bytes "h.c")),
    .finish fun _ => reading 3, .refresh (fun _ => reading 4) presented]

theorem logout_ends_refreshed : authMiddleware zeroMac 5 (reading 6) presented
      (Sequence.run (applySession zeroMac) refreshed (begun emptyServer 0)) = false ∧
    (Sequence.run (applySession zeroMac) refreshed (begun emptyServer 0)).successors = [bytes "h.c"] := by
  refine ⟨(logout_ends zeroMac emptyServer 0 refreshed ?_).1 5 (reading 6) presented (by decide) ?_,
    by decide⟩
  · refine ⟨⟨⟨⟨rfl, by decide⟩, trivial⟩, ?_⟩, ⟨⟨rfl, by decide⟩, trivial⟩, ⟨?_, trivial⟩,
      ⟨⟨⟨rfl, by decide⟩, trivial⟩, ?_⟩, trivial⟩
    · rintro t ht
      obtain rfl := List.mem_singleton.mp ht
      exact ⟨rfl, by decide⟩
    · rintro old ⟨⟩
      exact ⟨⟨rfl, by decide⟩, trivial⟩
    · rintro t ht
      obtain rfl := List.mem_singleton.mp ht
      exact ⟨rfl, by decide⟩
  · rintro t ⟨⟩
    exact ⟨rfl, by decide, by decide⟩

end Ended

end UMail.Api
