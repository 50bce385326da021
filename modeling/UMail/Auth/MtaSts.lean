import UMail.Library.Sequence
import UMail.Storage.Keys
import Mathlib.Algebra.Order.Group.Int
import Mathlib.Tactic.Common

namespace UMail.Auth

open UMail.Storage (Bytes bytes)

section Model

structure MTASTSPolicy where
  mode : Bytes
  mx : List Bytes
  maxAge : Int
  deriving DecidableEq

-- A policy, and the step of the run at which it was fetched.
structure Fetched where
  policy : MTASTSPolicy
  step : Nat
  deriving DecidableEq

-- The step at which an entry was stored stands for its address.
structure MTASTSCacheEntry where
  policy : Option Fetched
  id : Bytes
  recheckAt : Int
  expiresAt : Int
  step : Nat

-- The cache for one domain, the last reading of the clock, and the steps taken.
structure MTASTSValidator where
  cache : Option MTASTSCacheEntry
  clock : Int
  step : Nat

-- Where a call of GetPolicy is. It goes on with the entry it has read as long as that was valid.
inductive GetPolicy
  | start
  | revalidate (now : Int) (cached : MTASTSCacheEntry)
  | keep (now : Int) (cached : MTASTSCacheEntry)
  | lookup (now : Int) (cached : Option MTASTSCacheEntry)
  | download (now : Int) (cached : Option MTASTSCacheEntry) (id : Bytes)
  | store (now : Int) (entry : MTASTSCacheEntry)
  | done (now : Int) (out : Except Unit (Option Fetched))

-- The clock, the TXT record and the policy file as one step finds them.
structure Answers where
  now : Int
  txt : Except Unit (Option Bytes)
  file : Except Unit MTASTSPolicy

def second : Int := 1000000000

-- A policy that is still valid is answered in the place of a failure.
def orCached (now : Int) (cached : Option MTASTSCacheEntry) (failed : GetPolicy) : GetPolicy :=
  match cached.bind MTASTSCacheEntry.policy with
  | some policy => .done now (.ok (some policy))
  | none => failed

def readCache (now : Int) : Option MTASTSCacheEntry → GetPolicy
  | none => .lookup now none
  | some entry =>
    if entry.expiresAt ≤ now then .lookup now none
    else if entry.policy = none ∨ entry.id = [] ∨ now < entry.recheckAt then .done now (.ok entry.policy)
    else .revalidate now entry

-- One lock section, or one call to the resolver or the web server.
def GetPolicy.next (recheck : Int) (a : Answers) (v : MTASTSValidator) :
    GetPolicy → GetPolicy × MTASTSValidator
  | .start => (readCache (max v.clock a.now) v.cache, { v with clock := max v.clock a.now })
  | .revalidate now cached => match a.txt with
    | .ok (some id) => (if id = cached.id then .keep now cached else .lookup now (some cached), v)
    | _ => (.keep now cached, v)
  | .keep now cached =>
    (.done now (.ok cached.policy), { v with cache := v.cache.map fun entry =>
      if entry.step = cached.step then { entry with recheckAt := now + recheck } else entry })
  | .lookup now cached => match a.txt with
    | .error _ => (orCached now cached (.done now (.error ())), v)
    | .ok none => (orCached now cached (.store now ⟨none, [], 0, now + 300 * second, 0⟩), v)
    | .ok (some id) => (.download now cached id, v)
  | .download now cached id => match a.file with
    | .error _ => (orCached now cached (.done now (.error ())), v)
    | .ok policy =>
      (.store now ⟨some ⟨policy, v.step⟩, id, now + recheck, now + policy.maxAge * second, 0⟩, v)
  | .store now entry => (.done now (.ok entry.policy), { v with cache := some { entry with step := v.step } })
  | .done now out => (.done now out, v)

-- The validator and all calls, of which one takes a step.
def stepCall (recheck : Int) (s : Nat × Answers) (c : MTASTSValidator × List GetPolicy) :
    MTASTSValidator × List GetPolicy :=
  match c.2[s.1]? with
  | none => c
  | some call =>
    let out := call.next recheck s.2 c.1
    ({ out.2 with step := c.1.step + 1 }, c.2.set s.1 out.1)

end Model

-- The policy, or one that was fetched after the step.
def Current (p : Fetched) (k : Nat) (policy : Option Fetched) : Prop :=
  ∃ q, policy = some q ∧ (q = p ∨ k < q.step)

section Divergence

def enforcing : MTASTSPolicy := ⟨bytes "enforce", [bytes "mx"], 86400⟩

def answer (now : Int) (txt : Option Bytes) : Answers := ⟨now, .ok txt, .ok enforcing⟩

-- The first call is told that there is no record, the second one has a policy to store.
def overtaken : MTASTSValidator × List GetPolicy :=
  Sequence.run (stepCall 3600) [(0, answer 1 none), (1, answer 2 none), (0, answer 3 none),
    (1, answer 3 (some (bytes "id"))), (1, answer 3 none)] (⟨none, 0, 0⟩, [.start, .start, .start])

-- Then the first one stores that there is none.
theorem policy_downgraded : ¬ ∀ (recheck now since : Int) (p : Fetched) (entry : MTASTSCacheEntry)
    (c : MTASTSValidator × List GetPolicy) (s : Nat × Answers) (i : Nat) (steps : List (Nat × Answers))
    (out : Except Unit (Option Fetched)), c.2[s.1]? = some (.store since entry) → entry.policy = some p →
    c.2[i]? = some .start → (Sequence.run (stepCall recheck) (s :: steps) c).2[i]? = some (.done now out) →
    now < entry.expiresAt → ∃ q, out = .ok q ∧ Current p c.1.step q := by
  intro h
  obtain ⟨q, hq, policy, hpolicy, -⟩ := h 3600 4 2 ⟨enforcing, 4⟩ _ overtaken (1, answer 3 none) 2
    [(0, answer 3 none), (2, answer 4 none)] (.ok none) rfl rfl rfl rfl (by decide)
  cases hq
  cases hpolicy

end Divergence

section Kept

variable {recheck now bound : Int} {a : Answers} {v : MTASTSValidator} {p : Fetched} {k : Nat}
  {cached : Option MTASTSCacheEntry} {entry : MTASTSCacheEntry} {call : GetPolicy}

structure Serves (p : Fetched) (k : Nat) (bound : Int) (entry : MTASTSCacheEntry) : Prop where
  current : Current p k entry.policy
  expires : bound ≤ entry.expiresAt
  stored : k ≤ entry.step

def Served (p : Fetched) (k : Nat) (bound now : Int) (cached : Option MTASTSCacheEntry) : Prop :=
  now < bound → ∃ entry, cached = some entry ∧ Serves p k bound entry

-- Where a call stands that has read the clock before the policy expires.
def GetPolicy.Serving (p : Fetched) (k : Nat) (bound : Int) : GetPolicy → Prop
  | .start => True
  | .revalidate now cached | .keep now cached => Served p k bound now (some cached)
  | .lookup now cached | .download now cached _ => Served p k bound now cached
  | .store now entry => now < bound → Current p k entry.policy
  | .done now out => now < bound → ∃ q, out = .ok q ∧ Current p k q

theorem serving_orCached (h : Served p k bound now cached) {failed : GetPolicy}
    (hfailed : ¬ now < bound → failed.Serving p k bound) :
    (orCached now cached failed).Serving p k bound := by
  by_cases hnow : now < bound
  · obtain ⟨entry, rfl, hentry⟩ := h hnow
    obtain ⟨q, hq, hcurrent⟩ := hentry.current
    simp only [orCached, Option.bind_some, hq]
    exact fun _ => ⟨_, rfl, q, rfl, hcurrent⟩
  · cases hpolicy : cached.bind MTASTSCacheEntry.policy with
    | none => simpa [orCached, hpolicy] using hfailed hnow
    | some q => simp [orCached, hpolicy, GetPolicy.Serving, hnow]

theorem serving_readCache (h : Served p k bound now cached) : (readCache now cached).Serving p k bound := by
  by_cases hnow : now < bound
  · obtain ⟨entry, rfl, hentry⟩ := h hnow
    simp only [readCache, if_neg (not_le.mpr (hnow.trans_le hentry.expires))]
    split_ifs
    · exact fun _ => ⟨_, rfl, hentry.current⟩
    · exact fun _ => ⟨_, rfl, hentry⟩
  · cases cached with
    | none => simp [readCache, GetPolicy.Serving, Served, hnow]
    | some entry => simp only [readCache]; split_ifs <;> simp [GetPolicy.Serving, Served, hnow]

theorem serving_next (hk : k < v.step) (hcache : Served p k bound v.clock v.cache)
    (h : call.Serving p k bound) : (call.next recheck a v).1.Serving p k bound := by
  cases call with
  | start => exact serving_readCache fun hnow => hcache ((le_max_left ..).trans_lt hnow)
  | revalidate now cached =>
    simp only [GetPolicy.next]
    split
    · split_ifs <;> exact h
    · exact h
  | keep now cached =>
    intro hnow
    obtain ⟨_, ⟨⟩, hcached⟩ := h hnow
    exact ⟨_, rfl, hcached.current⟩
  | lookup now cached =>
    simp only [GetPolicy.next]
    split
    · exact serving_orCached h fun hnow hlt => absurd hlt hnow
    · exact serving_orCached h fun hnow hlt => absurd hlt hnow
    · exact h
  | download now cached id =>
    simp only [GetPolicy.next]
    split
    · exact serving_orCached h fun hnow hlt => absurd hlt hnow
    · exact fun _ => ⟨_, rfl, .inr hk⟩
  | store now entry => exact fun hnow => ⟨_, rfl, h hnow⟩
  | done now out => exact h

-- An entry in the place of a policy: a policy that was fetched after that was stored, and valid as long.
def Supersedes (entry held : MTASTSCacheEntry) : Prop :=
  ∃ q, entry.policy = some q ∧ held.step < q.step ∧ held.expiresAt ≤ entry.expiresAt

theorem Serves.superseded {held : MTASTSCacheEntry} (h : Serves p k bound held) (hnew : Supersedes entry held)
    (hk : k < v.step) : Serves p k bound { entry with step := v.step } := by
  obtain ⟨q, hq, hfetched, hexpires⟩ := hnew
  exact ⟨⟨q, hq, .inr (h.stored.trans_lt hfetched)⟩, h.expires.trans hexpires, hk.le⟩

theorem served_next (hk : k < v.step) (hcache : Served p k bound v.clock v.cache)
    (hnew : ∀ now entry held, call = .store now entry → v.cache = some held → held.policy.isSome →
      v.clock < held.expiresAt → Supersedes entry held) :
    Served p k bound (call.next recheck a v).2.clock (call.next recheck a v).2.cache := by
  cases call with
  | start => exact fun hclock => hcache ((le_max_left ..).trans_lt hclock)
  | keep now cached =>
    intro hclock
    obtain ⟨entry, hentry, h⟩ := hcache hclock
    refine ⟨_, congrArg (Option.map _) hentry, ?_⟩
    dsimp only
    split_ifs
    · exact ⟨h.current, h.expires, h.stored⟩
    · exact h
  | store now entry =>
    intro hclock
    obtain ⟨held, hheld, h⟩ := hcache hclock
    obtain ⟨q, hq, -⟩ := h.current
    exact ⟨_, rfl, h.superseded (hnew now entry held rfl hheld (hq ▸ rfl) (hclock.trans_le h.expires)) hk⟩
  | revalidate | lookup | download =>
    simp only [GetPolicy.next]
    split <;> exact hcache
  | done => exact hcache

-- No call stores in the place of a valid policy what does not supersede it.
def InOrder (c : MTASTSValidator × List GetPolicy) (s : Nat × Answers) : Prop :=
  ∀ now entry held, c.2[s.1]? = some (.store now entry) → c.1.cache = some held → held.policy.isSome →
    c.1.clock < held.expiresAt → Supersedes entry held

structure Protected (p : Fetched) (k : Nat) (bound : Int) (i : Nat) (c : MTASTSValidator × List GetPolicy) :
    Prop where
  since : k < c.1.step
  served : Served p k bound c.1.clock c.1.cache
  serving : ∀ call, c.2[i]? = some call → call.Serving p k bound

theorem protected_step {i : Nat} (c : MTASTSValidator × List GetPolicy) (s : Nat × Answers)
    (hs : InOrder c s) (h : Protected p k bound i c) : Protected p k bound i (stepCall recheck s c) := by
  rcases hcall : c.2[s.1]? with _ | call
  · simpa only [stepCall, hcall] using h
  simp only [stepCall, hcall]
  refine ⟨h.since.trans (Nat.lt_succ_self _), served_next h.since h.served ?_, fun call' hcall' => ?_⟩
  · rintro now entry held rfl
    exact hs now entry held hcall
  · rw [List.getElem?_set] at hcall'
    split_ifs at hcall' with hi
    · cases hcall'
      exact serving_next h.since h.served (h.serving call (hi ▸ hcall))
    · exact h.serving call' hcall'

theorem policy_kept {c : MTASTSValidator × List GetPolicy} {s : Nat × Answers} {i : Nat} {since : Int}
    (hstore : c.2[s.1]? = some (.store since entry)) (hp : entry.policy = some p)
    (hstart : c.2[i]? = some .start) {steps : List (Nat × Answers)}
    (hsteps : Sequence.RunAll (stepCall recheck) InOrder steps (stepCall recheck s c))
    {out : Except Unit (Option Fetched)}
    (hdone : (Sequence.run (stepCall recheck) (s :: steps) c).2[i]? = some (.done now out))
    (hnow : now < entry.expiresAt) : ∃ q, out = .ok q ∧ Current p c.1.step q := by
  have hinit : Protected p c.1.step entry.expiresAt i (stepCall recheck s c) := by
    simp only [stepCall, hstore]
    refine ⟨Nat.lt_succ_self _, fun _ => ⟨_, rfl, ⟨p, hp, .inl rfl⟩, le_rfl, le_rfl⟩, fun call hcall => ?_⟩
    rw [List.getElem?_set_ne (by rintro rfl; cases hstore.symm.trans hstart), hstart] at hcall
    cases hcall
    trivial
  exact (hsteps.invariant _ (fun c s => protected_step c s) hinit).serving _ hdone hnow

theorem policy_kept_cached :
    ∃ q, (.ok (some ⟨enforcing, 2⟩) : Except Unit _) = .ok q ∧ Current ⟨enforcing, 2⟩ 3 q := by
  let c := Sequence.run (stepCall 3600) (.replicate 3 (0, answer 1 (some (bytes "id"))))
    (⟨none, 0, 0⟩, [.start, .start])
  have hstart : (stepCall 3600 (0, answer 1 none) c).2[1]? = some .start := rfl
  have hsteps : Sequence.RunAll (stepCall 3600) InOrder [(1, answer 2 none)]
      (stepCall 3600 (0, answer 1 none) c) := by
    refine ⟨fun now entry held hstore => ?_, trivial⟩
    cases hstart.symm.trans hstore
  exact policy_kept (c := c) rfl rfl rfl hsteps (i := 1) rfl (by decide)

end Kept

end UMail.Auth
