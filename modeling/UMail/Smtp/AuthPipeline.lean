import UMail.Auth.Dmarc
import UMail.Smtp.Headers

namespace UMail.Smtp

open Separator (cutLast)
open UMail.Auth (Aligned DMARCEvaluator DMARCRecord discover evaluate evaluate_pass_iff)
open UMail.Storage (Bytes bytes equalFold)

section Model

structure DKIMSignature where
  domain : Bytes
  selector : Bytes

-- What Verify returns. A signature that could be parsed comes with an error too.
structure Verification where
  result : Auth.DKIMResult
  sig : Option DKIMSignature
  err : Option Bytes

structure DKIMResult where
  valid : Bool
  domain : Bytes
  selector : Bytes
  error : Bytes

structure SPFResult where
  result : Bytes
  domain : Bytes

structure DMARCResult where
  result : Bytes
  policy : Bytes
  percentage : Nat

-- What the two stages read and write of a message context. A rejection has its code and text.
structure AuthContext where
  sender : Bytes
  data : Bytes
  headers : Headers
  spfResult : SPFResult
  dkimResult : DKIMResult
  dmarcResult : DMARCResult
  spamScore : Int
  rejection : Option (Nat × Bytes)
  quarantine : Bool

structure AuthStages where
  verify : Headers → Bytes → Bytes → Verification
  evaluator : DMARCEvaluator
  parseAddress : Bytes → Option Bytes

def dkimVerdict (v : Verification) : DKIMResult :=
  match v.err, v.sig with
  | some err, sig => ⟨false, (sig.map DKIMSignature.domain).getD [], [], bytes "verification failed: " ++ err⟩
  | none, none => ⟨false, [], [], bytes "DKIM signature is nil"⟩
  | none, some sig =>
    if v.result = .pass then ⟨true, sig.domain, sig.selector, []⟩
    else ⟨false, sig.domain, [], bytes "verification failed: result=" ++ v.result.string⟩

-- The last result is kept, and the first valid one is the last.
def dkimLoop (verdict : Bytes → DKIMResult) (ctx : AuthContext) : List Bytes → AuthContext
  | [] => ctx
  | field :: fields =>
    if (verdict field).valid then { ctx with dkimResult := verdict field, spamScore := ctx.spamScore - 1 }
    else dkimLoop verdict { ctx with dkimResult := verdict field, spamScore := ctx.spamScore + 1 } fields

def dkimHeaders (h : Headers) : List Bytes :=
  match h.lookup (bytes "DKIM-Signature") with
  | some values => values
  | none => h.get (bytes "Dkim-Signature")

def AuthStages.dkim (s : AuthStages) (ctx : AuthContext) : AuthContext :=
  if dkimHeaders ctx.headers = [] then { ctx with dkimResult := ⟨false, [], [], bytes "no DKIM signature"⟩ }
  else dkimLoop (fun field => dkimVerdict (s.verify ctx.headers ctx.data field)) ctx (dkimHeaders ctx.headers)

def extractDomain (email : Bytes) : Bytes :=
  match email.splitOn 64 with
  | [_, domain] => domain
  | _ => []

def AuthStages.headerDomain (s : AuthStages) (value : Bytes) : Bytes :=
  match (s.parseAddress value).bind (cutLast 64) with
  | some (_ :: _, domain) => s.evaluator.toLower domain
  | _ => []

def mapSPFResult (toLower : Bytes → Bytes) (result : Bytes) : Auth.SPFResult :=
  if toLower result = bytes "pass" then .pass
  else if toLower result = bytes "fail" then .fail
  else if toLower result = bytes "softfail" then .softFail
  else if toLower result = bytes "neutral" then .neutral
  else if toLower result = bytes "temperror" then .tempError
  else if toLower result = bytes "permerror" then .permError
  else .none

def mapDKIMResult (dkim : DKIMResult) : Auth.DKIMResult :=
  if dkim.valid then .pass else if dkim.error ≠ [] then .fail else .none

-- Whether the message is accepted comes with the context.
def AuthStages.dmarcFor (s : AuthStages) (fromDomain : Bytes) (ctx : AuthContext) : AuthContext × Bool :=
  if fromDomain = [] then ({ ctx with dmarcResult := ⟨bytes "none", [], 0⟩ }, true)
  else
    let evaluation := evaluate s.evaluator fromDomain (mapSPFResult s.evaluator.toLower ctx.spfResult.result)
      ctx.spfResult.domain (mapDKIMResult ctx.dkimResult) ctx.dkimResult.domain
    let policy := (evaluation.appliedPolicy.map Auth.DMARCPolicy.string).getD []
    let ctx := { ctx with dmarcResult := ⟨evaluation.result.string, policy, 100⟩ }
    match evaluation.appliedPolicy with
    | some .reject =>
      ({ ctx with
          spamScore := ctx.spamScore + 3
          rejection := some (550, bytes "DMARC policy rejection: " ++ evaluation.explanation) }, false)
    | some .quarantine => ({ ctx with spamScore := ctx.spamScore + 2, quarantine := true }, true)
    | _ => (ctx, true)

def AuthStages.dmarc (s : AuthStages) (ctx : AuthContext) : AuthContext × Bool :=
  match fromHeaderValues ctx.headers with
  | [] => s.dmarcFor (extractDomain ctx.sender) ctx
  | [value] => s.dmarcFor (s.headerDomain value) ctx
  | _ => ({ ctx with rejection := some (550, bytes "5.6.0 Multiple From header fields") }, false)

end Model

section Alignment

-- The fields of the name, in any case of its letters.
def signatureFields (h : Headers) : List Bytes :=
  h.flatMap fun entry => if equalFold entry.1 (bytes "DKIM-Signature") then entry.2 else []

def Verifies (v : Verification) (domain : Bytes) : Prop :=
  v.err = none ∧ v.result = .pass ∧ ∃ sig, v.sig = some sig ∧ sig.domain = domain

variable (s : AuthStages) (ctx : AuthContext) (record : DMARCRecord) (fromDomain : Bytes)

def SpfAligned : Prop :=
  mapSPFResult s.evaluator.toLower ctx.spfResult.result = .pass ∧
    Aligned s.evaluator record.alignmentSPF fromDomain ctx.spfResult.domain

def DkimAligned (field : Bytes) : Prop :=
  ∃ domain, Verifies (s.verify ctx.headers ctx.data field) domain ∧
    Aligned s.evaluator record.alignmentDKIM fromDomain domain

-- Of the fields the stage looks at, the first that verifies is aligned.
def FirstAligned : Prop :=
  ∃ field, (dkimHeaders ctx.headers).find? (fun field =>
      (dkimVerdict (s.verify ctx.headers ctx.data field)).valid) = some field ∧
    DkimAligned s ctx record fromDomain field

end Alignment

section Divergence

def rejecting : DMARCRecord := ⟨bytes "DMARC1", .reject, none, none, .relaxed, .relaxed, 100, rfl⟩

-- Every domain has the record, and every signature is the name of a domain and verifies for it.
def trusting : AuthStages where
  verify _ _ field := ⟨.pass, some ⟨field, bytes "s"⟩, none⟩
  evaluator :=
    { policyRecord := fun _ => .record (some rejecting)
      domainExists := fun _ => none
      effectiveTLDPlusOne := some
      toLower := Storage.toLower
      equalFold := equalFold
      sampleHash := fun _ => 0 }
  parseAddress := some

def received (data : Bytes) : AuthContext :=
  ⟨bytes "x@a.org", data, parseHeaderBlock data [], ⟨bytes "none", []⟩, ⟨false, [], [], []⟩,
    ⟨[], [], 0⟩, 0, none, false⟩

-- The author's domain asks for rejection and a signature is aligned, but the result is not pass.
def Overlooks (data : Bytes) : Prop :=
  fromHeaderValues (received data).headers = [bytes "x@a.org"] ∧
    discover trusting.evaluator (trusting.headerDomain (bytes "x@a.org")) =
      (.record (some rejecting), false) ∧
    (trusting.dmarc (trusting.dkim (received data))).1.dmarcResult.result = bytes "fail" ∧
    ∃ field ∈ signatureFields (received data).headers,
      DkimAligned trusting (received data) rejecting (trusting.headerDomain (bytes "x@a.org")) field

-- The aligned signature comes second, or its name is in small letters.
theorem dmarc_alignment_fails :
    Overlooks (bytes "From: x@a.org\r\nDKIM-Signature: b.org\r\nDKIM-Signature: a.org\r\n\r\n") ∧
      Overlooks (bytes "From: x@a.org\r\ndkim-signature: a.org\r\n\r\n") := by
  have haligned : ∀ data, DkimAligned trusting (received data) rejecting
      (trusting.headerDomain (bytes "x@a.org")) (bytes "a.org") := fun data =>
    ⟨bytes "a.org", ⟨rfl, rfl, _, rfl, rfl⟩, by decide, .inl (by decide)⟩
  exact ⟨⟨by decide, rfl, by decide, _, by decide, haligned _⟩,
    by decide, rfl, by decide, _, by decide, haligned _⟩

end Divergence

variable {s : AuthStages} {ctx : AuthContext} {record : DMARCRecord} {fromDomain : Bytes}
  {verdict : Bytes → DKIMResult} {ctx : AuthContext} {fields : List Bytes}

theorem dkimVerdict_valid {v : Verification} {domain : Bytes} :
    (dkimVerdict v).valid = true ∧ (dkimVerdict v).domain = domain ↔ Verifies v domain := by
  rcases v with ⟨result, sig, err⟩
  cases err <;> cases sig <;> simp only [dkimVerdict, Verifies] <;> try simp
  split_ifs with hpass <;> simp [hpass]

theorem mapDKIMResult_pass {dkim : DKIMResult} : mapDKIMResult dkim = .pass ↔ dkim.valid = true := by
  unfold mapDKIMResult
  split_ifs <;> simp_all

-- The result of the first signature that verifies stands at the end.
theorem dkimLoop_valid {P : Bytes → Prop} (hctx : fields = [] → ctx.dkimResult.valid = false) :
    (dkimLoop verdict ctx fields).dkimResult.valid = true ∧
        P (dkimLoop verdict ctx fields).dkimResult.domain ↔
      ∃ field, fields.find? (fun field => (verdict field).valid) = some field ∧ P (verdict field).domain := by
  induction fields generalizing ctx with
  | nil => simp [dkimLoop, hctx]
  | cons field fields ih =>
    unfold dkimLoop
    split_ifs with hvalid
    · simp [hvalid]
    · rw [ih fun _ => by simpa using hvalid, List.find?_cons, Bool.eq_false_iff.mpr hvalid]

theorem dkimLoop_frame :
    (dkimLoop verdict ctx fields).headers = ctx.headers ∧
      (dkimLoop verdict ctx fields).spfResult = ctx.spfResult := by
  induction fields generalizing ctx with
  | nil => exact ⟨rfl, rfl⟩
  | cons field fields ih =>
    unfold dkimLoop
    split_ifs
    · exact ⟨rfl, rfl⟩
    · exact ih

theorem dkim_frame :
    (s.dkim ctx).headers = ctx.headers ∧ (s.dkim ctx).spfResult = ctx.spfResult := by
  unfold AuthStages.dkim
  split_ifs
  · exact ⟨rfl, rfl⟩
  · exact dkimLoop_frame

theorem dkim_aligned_iff :
    (s.dkim ctx).dkimResult.valid = true ∧
        Aligned s.evaluator record.alignmentDKIM fromDomain (s.dkim ctx).dkimResult.domain ↔
      FirstAligned s ctx record fromDomain := by
  have hloop : (s.dkim ctx).dkimResult.valid = true ∧
        Aligned s.evaluator record.alignmentDKIM fromDomain (s.dkim ctx).dkimResult.domain ↔
      ∃ field, (dkimHeaders ctx.headers).find? (fun field =>
          (dkimVerdict (s.verify ctx.headers ctx.data field)).valid) = some field ∧
        Aligned s.evaluator record.alignmentDKIM fromDomain
          (dkimVerdict (s.verify ctx.headers ctx.data field)).domain := by
    unfold AuthStages.dkim
    split_ifs with hnone
    · simp [hnone]
    · exact dkimLoop_valid (absurd · hnone)
  rw [hloop]
  refine exists_congr fun field => and_congr_right fun hfind => ?_
  have hvalid := List.find?_some hfind
  constructor
  · exact fun haligned => ⟨_, dkimVerdict_valid.mp ⟨hvalid, rfl⟩, haligned⟩
  · rintro ⟨domain, hverifies, haligned⟩
    rwa [(dkimVerdict_valid.mpr hverifies).2]

theorem result_dmarcFor (hdomain : fromDomain ≠ []) :
    (s.dmarcFor fromDomain ctx).1.dmarcResult.result =
      (evaluate s.evaluator fromDomain (mapSPFResult s.evaluator.toLower ctx.spfResult.result)
        ctx.spfResult.domain (mapDKIMResult ctx.dkimResult) ctx.dkimResult.domain).result.string := by
  rw [AuthStages.dmarcFor, if_neg hdomain]
  dsimp only
  split <;> rfl

theorem string_pass_iff {result : Auth.DMARCResult} : result.string = bytes "pass" ↔ result = .pass := by
  cases result <;> decide

theorem dkimHeaders_subset (h : Headers) : dkimHeaders h ⊆ signatureFields h := by
  intro field hfield
  have hmem : ∃ name values, h.lookup name = some values ∧ field ∈ values ∧
      equalFold name (bytes "DKIM-Signature") = true := by
    unfold dkimHeaders at hfield
    cases hlookup : h.lookup (bytes "DKIM-Signature") with
    | some values =>
      rw [hlookup] at hfield
      exact ⟨_, values, hlookup, hfield, by decide⟩
    | none =>
      rw [hlookup] at hfield
      cases hother : h.lookup (bytes "Dkim-Signature") with
      | none => simp [Headers.get, hother] at hfield
      | some values => exact ⟨_, values, hother, by simpa [Headers.get, hother] using hfield, by decide⟩
  obtain ⟨name, values, hlookup, hvalue, hname⟩ := hmem
  obtain ⟨before, after, rfl, _⟩ := List.lookup_eq_some_iff.mp hlookup
  exact List.mem_flatMap.mpr ⟨(name, values), by simp, by simpa [hname] using hvalue⟩

-- What the stages come to: SPF and the first signature that verifies decide.
theorem dmarcResult_pass_iff {value : Bytes} {fromOrg : Bool} (hfrom : fromHeaderValues ctx.headers = [value])
    (hdomain : s.headerDomain value ≠ [])
    (hrecord : discover s.evaluator (s.headerDomain value) = (.record (some record), fromOrg)) :
    (s.dmarc (s.dkim ctx)).1.dmarcResult.result = bytes "pass" ↔
      SpfAligned s ctx record (s.headerDomain value) ∨ FirstAligned s ctx record (s.headerDomain value) := by
  obtain ⟨hheaders, hspf⟩ := dkim_frame
  rw [AuthStages.dmarc, hheaders, hfrom, result_dmarcFor hdomain, string_pass_iff,
    evaluate_pass_iff hrecord, mapDKIMResult_pass, hspf, dkim_aligned_iff]
  rfl

theorem dmarc_alignment_iff (s : AuthStages) (ctx : AuthContext) (value : Bytes) (record : DMARCRecord)
    (fromOrg : Bool) (hfrom : fromHeaderValues ctx.headers = [value]) (hdomain : s.headerDomain value ≠ [])
    (hrecord : discover s.evaluator (s.headerDomain value) = (.record (some record), fromOrg)) :
    ((s.dmarc (s.dkim ctx)).1.dmarcResult.result = bytes "pass" ↔
      SpfAligned s ctx record (s.headerDomain value) ∨
        ∃ field ∈ signatureFields ctx.headers, DkimAligned s ctx record (s.headerDomain value) field) ↔
    SpfAligned s ctx record (s.headerDomain value) ∨ FirstAligned s ctx record (s.headerDomain value) ∨
      ∀ field ∈ signatureFields ctx.headers, ¬ DkimAligned s ctx record (s.headerDomain value) field := by
  have hfirst : FirstAligned s ctx record (s.headerDomain value) →
      ∃ field ∈ signatureFields ctx.headers, DkimAligned s ctx record (s.headerDomain value) field :=
    fun ⟨field, hfind, haligned⟩ =>
      ⟨field, dkimHeaders_subset ctx.headers (List.mem_of_find?_eq_some hfind), haligned⟩
  rw [dmarcResult_pass_iff hfrom hdomain hrecord]
  constructor
  · intro hiff
    by_contra hnone
    push Not at hnone
    obtain ⟨hspf, hnot, field, hfield, haligned⟩ := hnone
    exact (hiff.mpr (.inr ⟨field, hfield, haligned⟩)).elim hspf hnot
  · rintro (hspf | haligned | hnone)
    · exact iff_of_true (.inl hspf) (.inl hspf)
    · exact iff_of_true (.inr haligned) (.inr (hfirst haligned))
    · exact or_congr_right ⟨hfirst, fun ⟨field, hfield, haligned⟩ => absurd haligned (hnone field hfield)⟩

-- The aligned one of two signatures comes first.
def signedTwice : AuthContext :=
  received (bytes "From: x@a.org\r\nDKIM-Signature: a.org\r\nDKIM-Signature: b.org\r\n\r\n")

theorem dmarc_alignment_signed :
    (trusting.dmarc (trusting.dkim signedTwice)).1.dmarcResult.result = bytes "pass" := by
  have haligned : DkimAligned trusting signedTwice rejecting (trusting.headerDomain (bytes "x@a.org"))
      (bytes "a.org") := ⟨bytes "a.org", ⟨rfl, rfl, _, rfl, rfl⟩, by decide, .inl (by decide)⟩
  have hiff := dmarc_alignment_iff trusting signedTwice (bytes "x@a.org") rejecting false (by decide)
    (by decide) rfl
  refine (hiff.mpr (.inr (.inl ⟨bytes "a.org", by decide, haligned⟩))).mpr (.inr ⟨_, ?_, haligned⟩)
  decide

end UMail.Smtp
