import UMail.Imap.SequenceSet

namespace UMail.Auth

open UMail.Storage (Bytes bytes)

inductive SPFResult
  | none | pass | fail | softFail | neutral | tempError | permError
  deriving DecidableEq

inductive DKIMResult
  | none | pass | fail | permError | tempError
  deriving DecidableEq

def DKIMResult.string : DKIMResult → Bytes
  | .none => bytes "none"
  | .pass => bytes "pass"
  | .fail => bytes "fail"
  | .permError => bytes "permerror"
  | .tempError => bytes "temperror"

inductive DMARCResult
  | none | pass | fail | permError | tempError
  deriving DecidableEq

def DMARCResult.string : DMARCResult → Bytes
  | .none => bytes "none"
  | .pass => bytes "pass"
  | .fail => bytes "fail"
  | .permError => bytes "permerror"
  | .tempError => bytes "temperror"

inductive DMARCPolicy
  | none | quarantine | reject
  deriving DecidableEq

def DMARCPolicy.string : DMARCPolicy → Bytes
  | .none => bytes "none"
  | .quarantine => bytes "quarantine"
  | .reject => bytes "reject"

inductive DMARCAlignment
  | relaxed | strict

-- parseDMARCRecord gives no record of another version.
structure DMARCRecord where
  version : Bytes
  policy : DMARCPolicy
  subdomainPolicy : Option DMARCPolicy
  nonExistentPolicy : Option DMARCPolicy
  alignmentDKIM : DMARCAlignment
  alignmentSPF : DMARCAlignment
  percentage : Nat
  version_eq : version = bytes "DMARC1"

inductive PolicyAnswer
  | failed
  | multiple
  | record (found : Option DMARCRecord)

-- The lookups behind their cache, and what is used of other packages.
structure DMARCEvaluator where
  policyRecord : Bytes → PolicyAnswer
  domainExists : Bytes → Option Bool
  effectiveTLDPlusOne : Bytes → Option Bytes
  toLower : Bytes → Bytes
  equalFold : Bytes → Bytes → Bool
  sampleHash : Bytes → Nat

structure DKIMSignatureResult where
  result : DKIMResult
  domain : Bytes

-- An early answer has no applied policy.
structure DMARCEvaluation where
  result : DMARCResult
  appliedPolicy : Option DMARCPolicy
  explanation : Bytes

section Evaluate

variable (e : DMARCEvaluator)

def isOrganizationalDomainMatch (domain1 domain2 : Bytes) : Bool :=
  if e.toLower domain1 = e.toLower domain2 then true
  else match e.effectiveTLDPlusOne (e.toLower domain1) with
    | none => false
    | some org1 => e.effectiveTLDPlusOne (e.toLower domain2) = some org1

def checkAlignment (authDomain fromDomain : Bytes) (mode : DMARCAlignment) : Bool :=
  if authDomain = [] then false
  else match mode with
    | .strict => e.equalFold authDomain fromDomain
    | .relaxed => isOrganizationalDomainMatch e authDomain fromDomain

def shouldApplyPolicy (percentage : Nat) (key : Bytes) : Bool :=
  if 100 ≤ percentage then true
  else if percentage ≤ 0 then false
  else e.sampleHash key % 100 < percentage

def policyFor (record : DMARCRecord) (fromDomain : Bytes) (fromOrg : Bool) : DMARCPolicy :=
  let policy := if fromOrg then record.subdomainPolicy.getD record.policy else record.policy
  if fromOrg && e.domainExists fromDomain = some false then record.nonExistentPolicy.getD policy else policy

-- What a message that is not sampled gets.
def DMARCPolicy.lower : DMARCPolicy → DMARCPolicy
  | .reject => .quarantine
  | _ => .none

def evaluateWithRecord (fromDomain sampleKey : Bytes) (spfResult : SPFResult) (spfDomain : Bytes)
    (sigs : List DKIMSignatureResult) (record : Option DMARCRecord) (fromOrg : Bool) : DMARCEvaluation :=
  match record with
  | none => ⟨.none, none, bytes "No DMARC record found"⟩
  | some record =>
    if record.version ≠ bytes "DMARC1" then ⟨.permError, none, bytes "Invalid DMARC version"⟩
    else
      let spfPassed := spfResult = .pass && checkAlignment e spfDomain fromDomain record.alignmentSPF
      let dkimPassed := sigs.any fun sg =>
        sg.result = .pass && checkAlignment e sg.domain fromDomain record.alignmentDKIM
      let policy := policyFor e record fromDomain fromOrg
      let pct := Imap.formatUint record.percentage.toUInt32
      if spfPassed || dkimPassed then
        ⟨.pass, some .none, bytes (if spfPassed then "SPF aligned" else "DKIM aligned")⟩
      else if 100 ≤ record.percentage then ⟨.fail, some policy, bytes "DMARC check failed"⟩
      else if shouldApplyPolicy e record.percentage (fromDomain ++ bytes "|" ++ sampleKey) then
        ⟨.fail, some policy, bytes "DMARC policy applied (pct=" ++ pct ++ bytes ")"⟩
      else ⟨.fail, some policy.lower, bytes "DMARC policy not applied due to pct=" ++ pct⟩

-- The answer for the domain, or else for its organizational domain, and whether it is the latter.
def discover (fromDomain : Bytes) : PolicyAnswer × Bool :=
  match e.policyRecord fromDomain with
  | .record none => match e.effectiveTLDPlusOne (e.toLower fromDomain) with
    | none => (.record none, false)
    | some org =>
      if e.equalFold org fromDomain then (.record none, false)
      else match e.policyRecord org with
        | .record (some record) => (.record (some record), true)
        | answer => (answer, false)
  | answer => (answer, false)

def evaluateSignatures (fromDomain sampleKey : Bytes) (spfResult : SPFResult) (spfDomain : Bytes)
    (sigs : List DKIMSignatureResult) : DMARCEvaluation :=
  let key := if sampleKey = [] then spfDomain ++ sigs.flatMap fun sg => bytes "|" ++ sg.domain else sampleKey
  match discover e fromDomain with
  | (.failed, _) => ⟨.tempError, none, bytes "DNS lookup failed"⟩
  | (.multiple, _) => ⟨.none, none, bytes "Multiple DMARC records found"⟩
  | (.record record, fromOrg) => evaluateWithRecord e fromDomain key spfResult spfDomain sigs record fromOrg

def evaluate (fromDomain : Bytes) (spfResult : SPFResult) (spfDomain : Bytes) (dkimResult : DKIMResult)
    (dkimDomain : Bytes) : DMARCEvaluation :=
  evaluateSignatures e fromDomain [] spfResult spfDomain [⟨dkimResult, dkimDomain⟩]

end Evaluate

-- The same domain, or in relaxed mode the same organizational domain.
def Aligned (e : DMARCEvaluator) (mode : DMARCAlignment) (fromDomain domain : Bytes) : Prop :=
  domain ≠ [] ∧ match mode with
    | .strict => e.equalFold domain fromDomain
    | .relaxed => e.toLower domain = e.toLower fromDomain ∨
        ∃ org, e.effectiveTLDPlusOne (e.toLower domain) = some org ∧
          e.effectiveTLDPlusOne (e.toLower fromDomain) = some org

variable {e : DMARCEvaluator} {mode : DMARCAlignment} {fromDomain domain : Bytes}

theorem isOrganizationalDomainMatch_iff :
    isOrganizationalDomainMatch e domain fromDomain ↔ e.toLower domain = e.toLower fromDomain ∨
      ∃ org, e.effectiveTLDPlusOne (e.toLower domain) = some org ∧
        e.effectiveTLDPlusOne (e.toLower fromDomain) = some org := by
  unfold isOrganizationalDomainMatch
  split_ifs with hsame
  · simp [hsame]
  · cases horg : e.effectiveTLDPlusOne (e.toLower domain) <;> simp [hsame]

theorem checkAlignment_iff : checkAlignment e domain fromDomain mode ↔ Aligned e mode fromDomain domain := by
  unfold checkAlignment Aligned
  split_ifs with hempty
  · simp [hempty]
  · cases mode with
    | strict => simp [hempty]
    | relaxed => simp [hempty, isOrganizationalDomainMatch_iff]

-- A single signature decides together with SPF.
theorem evaluate_pass_iff {record : DMARCRecord} {fromOrg : Bool} {spf : SPFResult} {spfDomain : Bytes}
    {dkim : DKIMResult} (hrecord : discover e fromDomain = (.record (some record), fromOrg)) :
    (evaluate e fromDomain spf spfDomain dkim domain).result = .pass ↔
      (spf = .pass ∧ Aligned e record.alignmentSPF fromDomain spfDomain) ∨
        (dkim = .pass ∧ Aligned e record.alignmentDKIM fromDomain domain) := by
  simp only [evaluate, evaluateSignatures, hrecord, evaluateWithRecord, record.version_eq,
    ← checkAlignment_iff]
  split_ifs with _ hpass
  · contradiction
  · simpa using hpass
  all_goals simpa using hpass

end UMail.Auth
