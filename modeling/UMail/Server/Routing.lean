import UMail.Db.Addresses
import UMail.Library.Chain

namespace UMail.Server

open Db
open Text (CaseTable toLower trimSpace trimRight cutFirst)
open Separator (cutLast)
open Sequence (RunAll)
open Chain (Reaches Ends)
open UMail.Storage (bytes)

def plus : UInt8 := 43

def dot : UInt8 := 46

def maxAliasHops : Nat := 10

def parseEmail (email : Text) : Address :=
  match cutLast atSign email with
  | none => ⟨email, []⟩
  | some (user, domain) => ⟨user, domain⟩

def normalizeRcpt (table : CaseTable) (addr : Text) : Address :=
  let parsed := parseEmail (trimSpace addr)
  ⟨toLower table parsed.localPart, trimRight dot (toLower table parsed.domain)⟩

inductive Route
  | mailbox (user domain : Text)
  | external (addr : Text)
  deriving DecidableEq, Repr

inductive RouteError
  | aliasLoop (addr : Text)
  deriving DecidableEq, Repr

def Address.text (a : Address) : Text := a.localPart ++ atSign :: a.domain

def activeDomain (db : Directory) (name : Text) : Bool :=
  (db.getDomain name).any DomainData.isActive

-- The target of an alias. An error of the database is taken for none.
def aliasTarget (table : CaseTable) (db : Directory) (domain user : Text) : Text :=
  match db.resolveAlias table domain user with
  | .ok target => target
  | .error _ => []

-- The target for an address, and the user that the mail is for when there is
-- none. A tag counts for nothing where only the part before it is known.
def resolveUser (table : CaseTable) (db : Directory) (a : Address) : Text × Text :=
  let target := aliasTarget table db a.domain a.localPart
  if target ≠ [] then (target, a.localPart)
  else match cutFirst plus a.localPart with
    | none | some [] => ([], a.localPart)
    | some base =>
      if (db.getAccount a.domain a.localPart).isSome then ([], a.localPart)
      else
        let baseTarget := aliasTarget table db a.domain base
        if baseTarget ≠ [] then (baseTarget, a.localPart) else ([], base)

def targetAddress (table : CaseTable) (target : Text) : Option Address :=
  if target = [] then none
  else
    let next := normalizeRcpt table target
    if next.localPart ≠ [] ∧ next.domain ≠ [] then some next else none

-- The rounds of the loop. The number counts down from the bound.
def routeFrom (table : CaseTable) (db : Directory) : Nat → List Text → Address → Except RouteError Route
  | 0, _, a =>
    if activeDomain db a.domain then .error (.aliasLoop (Address.text a))
    else .ok (.external (Address.text a))
  | left + 1, seen, a =>
    if !activeDomain db a.domain then .ok (.external (Address.text a))
    else if Address.text a ∈ seen then .error (.aliasLoop (Address.text a))
    else
      let resolved := resolveUser table db a
      match targetAddress table resolved.1 with
      | some next => routeFrom table db left (Address.text a :: seen) next
      | none => .ok (.mailbox resolved.2 a.domain)

def routeRecipient (table : CaseTable) (db : Directory) (rcpt : Text) : Except RouteError Route :=
  routeFrom table db (maxAliasHops + 1) [] (normalizeRcpt table rcpt)

def hosting (domains : Bucket DomainData) : Directory := ⟨domains, ∅, ∅⟩

def keepsDomains : Op → Bool
  | .createDomain _ | .deleteDomain _ | .deleteDomainKeepAdmin _ => false
  | _ => true

def taggedAliases : List Call :=
  [⟨.createAlias ⟨bytes "a", bytes "b+x@d", bytes "d", true⟩, false⟩,
    ⟨.createAlias ⟨bytes "b", bytes "a+x@d", bytes "d", true⟩, false⟩]

def oneDomain : Bucket DomainData :=
  (∅ : Bucket DomainData).insert (bytes "d") ⟨bytes "d", 0, true⟩

def link (table : CaseTable) (db : Directory) (a : Address) : Option Address :=
  if activeDomain db a.domain then targetAddress table (aliasTarget table db a.domain a.localPart)
  else none

-- The target has no tag. The aliases on the way to the new one, the new one and
-- those on the way from its target are together no more than the router
-- follows, and that way does not come back to the new one.
def Linkable (table : CaseTable) (db : Directory) (row : AliasData) : Prop :=
  plus ∉ (normalizeRcpt table row.marshal.target).localPart ∧
    ∀ i a x j b, Reaches (link table db) i a x → x.key table = row.key table →
      Reaches (link table db) j (normalizeRcpt table row.marshal.target) b →
        b.key table ≠ row.key table ∧ i + 1 + j ≤ maxAliasHops

def LinksWell (table : CaseTable) (db : Directory) (call : Call) : Prop :=
  match call.op with
  | .createAlias row | .updateAlias row => row.isActive = true → Linkable table db row
  | _ => True

section Links

variable {table : CaseTable} {db db' : Directory} {a b : Address} {row : AliasData}

theorem at_notMem_normalizeRcpt (addr : Text) : atSign ∉ (normalizeRcpt table addr).domain := by
  refine Text.notMem_trimRight (Text.notMem_toLower (by decide) ?_)
  unfold parseEmail
  cases hcut : cutLast atSign (trimSpace addr) with
  | none => exact List.not_mem_nil
  | some parts => exact (Separator.cutLast_eq_some hcut).2

theorem eq_of_targetAddress {target : Text} (h : targetAddress table target = some b) :
    b = normalizeRcpt table target := by
  simp only [targetAddress] at h
  split_ifs at h
  exact (Option.some.inj h).symm

theorem link_eq_some : link table db a = some b ↔ activeDomain db a.domain = true ∧
    ∃ row, db.aliases[a.key table]? = some row ∧ row.isActive = true ∧
      targetAddress table row.target = some b := by
  unfold link aliasTarget Directory.resolveAlias Directory.getAlias Address.key
  cases activeDomain db a.domain with
  | false => simp
  | true =>
    rcases hrow : db.aliases[aliasKey table a.domain a.localPart]? with _ | row
    · simp [targetAddress]
    cases hactive : row.isActive with
    | false => simp [hactive, targetAddress]
    | true => simp [hactive]

theorem link_subset (hdomains : db'.domains = db.domains)
    (haliases : ∀ (k : Text) (row : AliasData), db'.aliases[k]? = some row → db.aliases[k]? = some row)
    (h : link table db' a = some b) : link table db a = some b := by
  obtain ⟨hactive, row, hrow, hrest⟩ := link_eq_some.mp h
  refine link_eq_some.mpr ⟨?_, row, haliases _ row hrow, hrest⟩
  simpa only [activeDomain, Directory.getDomain, hdomains] using hactive

theorem link_putAlias_of_ne (h : a.key table ≠ row.key table) :
    link table (db.putAlias table row) a = link table db a := by
  refine Option.ext fun b => ?_
  rw [link_eq_some, link_eq_some, aliases_putAlias, if_neg (Ne.symm h)]
  rfl

theorem link_putAlias_of_eq (h : a.key table = row.key table)
    (hlink : link table (db.putAlias table row) a = some b) :
    row.isActive = true ∧ b = normalizeRcpt table row.marshal.target := by
  obtain ⟨_, found, hfound, hactive, htarget⟩ := link_eq_some.mp hlink
  rw [aliases_putAlias, if_pos h.symm] at hfound
  cases hfound
  exact ⟨hactive, eq_of_targetAddress htarget⟩

end Links

-- Every way along the aliases is one that the router follows to its end, and no
-- alias leads to a tagged address.
structure Routable (table : CaseTable) (db : Directory) : Prop where
  ends : ∀ a, Ends (link table db) maxAliasHops a
  untagged : ∀ a b, link table db a = some b → plus ∉ b.localPart

section Steps

variable {table : CaseTable} {db db' : Directory}

theorem Routable.of_subset (h : Routable table db)
    (hsub : ∀ a b, link table db' a = some b → link table db a = some b) : Routable table db' where
  ends a := (h.ends a).of_subset hsub
  untagged a b hlink := h.untagged a b (hsub a b hlink)

theorem Routable.putAlias (h : Routable table db) {row : AliasData}
    (hlinkable : row.isActive = true → Linkable table db row) :
    Routable table (db.putAlias table row) := by
  cases hactive : row.isActive with
  | false =>
    -- An alias that is not active is as good as none.
    refine h.of_subset fun a b hlink => ?_
    by_cases hkey : a.key table = row.key table
    · rw [(link_putAlias_of_eq hkey hlink).1] at hactive
      cases hactive
    · rwa [link_putAlias_of_ne hkey] at hlink
  | true =>
    obtain ⟨htag, hways⟩ := hlinkable hactive
    refine ⟨fun a => ?_, fun a b hlink => ?_⟩
    · let changed : Set Address := {x | x.key table = row.key table}
      have hsame : ∀ x, x ∉ changed → link table (db.putAlias table row) x = link table db x :=
        fun x hx => link_putAlias_of_ne hx
      obtain ⟨m, _, hends, last, hlast⟩ := (h.ends (normalizeRcpt table row.marshal.target)).exists_last
      have hafter : Ends (link table (db.putAlias table row)) m (normalizeRcpt table row.marshal.target) :=
        hends.of_avoids hsame fun j b hb =>
          (hways 0 ⟨row.aliasName, row.domain⟩ _ j b rfl rfl hb).1
      exact Ends.splice hsame (fun x hx b hlink => (link_putAlias_of_eq hx hlink).2) hafter
        (h.ends a) le_rfl fun i x hx hchanged => (hways i a x m last hx hchanged hlast).2
    · by_cases hkey : a.key table = row.key table
      · rwa [(link_putAlias_of_eq hkey hlink).2]
      · rw [link_putAlias_of_ne hkey] at hlink
        exact h.untagged a b hlink

theorem Routable.change (h : Routable table db) {call : Call} (hop : keepsDomains call.op = true)
    (hlinks : LinksWell table db call) (hchange : Change table db call.op db') :
    Routable table db' := by
  unfold LinksWell at hlinks
  generalize call.op = op at hop hlinks hchange
  cases hchange with
  | kept | accountCreated | accountUpdated | accountMutated | accountMutatedKeepAdmin | quotaMoved
  | stepConsumed => exact h.of_subset fun a b hlink => hlink
  | accountDropped | accountDroppedKeepAdmin =>
    exact h.of_subset fun a b => link_subset rfl fun _ _ => aliases_of_dropAccount
  | aliasDropped => exact h.of_subset fun a b => link_subset rfl fun _ _ => aliases_of_erase
  | aliasCreated | aliasUpdated => exact h.putAlias hlinks
  | domainCreated | domainDropped | domainDroppedKeepAdmin => cases hop

end Steps

section Router

variable {table : CaseTable} {db : Directory} {a b : Address}

def hop (table : CaseTable) (db : Directory) (a : Address) : Option Address :=
  if activeDomain db a.domain then targetAddress table (resolveUser table db a).1 else none

theorem resolveUser_cases : (resolveUser table db a).1 = [] ∨
    ∃ user, (resolveUser table db a).1 = aliasTarget table db a.domain user := by
  unfold resolveUser
  by_cases htarget : aliasTarget table db a.domain a.localPart ≠ []
  · exact .inr ⟨a.localPart, by rw [if_pos htarget]⟩
  rw [if_neg htarget]
  split
  · exact .inl rfl
  · exact .inl rfl
  · rename_i base _ _
    dsimp only
    split_ifs
    · exact .inl rfl
    · exact .inr ⟨base, rfl⟩
    · exact .inl rfl

theorem link_of_hop (h : hop table db a = some b) :
    ∃ user, link table db ⟨user, a.domain⟩ = some b := by
  unfold hop at h
  split_ifs at h with hactive
  rcases resolveUser_cases with hnone | ⟨user, huser⟩
  · rw [hnone] at h
    cases h
  · rw [huser] at h
    exact ⟨user, by simpa only [link, if_pos hactive] using h⟩

theorem hop_of_untagged (h : plus ∉ a.localPart) : hop table db a = link table db a := by
  unfold hop link resolveUser cutFirst
  simp only [if_neg h]
  split_ifs <;> simp_all

theorem ends_hop_of_untagged (hroutable : Routable table db) {n : Nat}
    (huntagged : plus ∉ a.localPart) (h : Ends (link table db) n a) : Ends (hop table db) n a := by
  induction n generalizing a with
  | zero => exact (hop_of_untagged huntagged).trans h
  | succ n ih =>
    intro c hc
    rw [hop_of_untagged huntagged] at hc
    exact ih (hroutable.untagged a c hc) (h c hc)

-- A tagged address is only where a way begins.
theorem ends_hop (hroutable : Routable table db) : Ends (hop table db) maxAliasHops a := by
  intro c hc
  obtain ⟨user, hlink⟩ := link_of_hop hc
  exact ends_hop_of_untagged hroutable (hroutable.untagged _ c hlink) (hroutable.ends _ c hlink)

theorem text_inj (ha : atSign ∉ a.domain) (hb : atSign ∉ b.domain) (h : Address.text a = Address.text b) :
    a = b := by
  obtain ⟨hlocal, hdomain⟩ := Separator.append_separator_inj_last ha hb h
  cases a
  simp_all

-- The router comes to an end when the way does: it meets no address again, and
-- the rounds that are left are enough.
theorem routeFrom_ok {n left : Nat} {seen : List Text} (hends : Ends (hop table db) n a)
    (hleft : n < left) (hdomain : atSign ∉ a.domain)
    (hseen : ∀ s ∈ seen, ∃ b k, s = Address.text b ∧ atSign ∉ b.domain ∧ 0 < k ∧
      Reaches (hop table db) k b a) : ∃ route, routeFrom table db left seen a = .ok route := by
  induction left generalizing n seen a with
  | zero => omega
  | succ left ih =>
    unfold routeFrom
    cases hactive : activeDomain db a.domain with
    | false => exact ⟨_, rfl⟩
    | true =>
      have hnew : Address.text a ∉ seen := by
        intro hmem
        obtain ⟨b, k, htext, hb, hpos, hreach⟩ := hseen _ hmem
        obtain rfl := text_inj hdomain hb htext
        exact hends.not_reaches_self hpos hreach
      simp only [Bool.not_true, if_neg hnew]
      rcases htarget : targetAddress table (resolveUser table db a).1 with _ | next
      · exact ⟨_, rfl⟩
      have hhop : hop table db a = some next := by rw [hop, if_pos hactive, htarget]
      cases n with
      | zero =>
        rw [show hop table db a = none from hends] at hhop
        cases hhop
      | succ n =>
        refine ih (hends next hhop) (by omega) ?_ ?_
        · rw [eq_of_targetAddress htarget]
          exact at_notMem_normalizeRcpt _
        · intro s hs
          rcases List.mem_cons.mp hs with rfl | hs
          · exact ⟨a, 1, rfl, hdomain, Nat.one_pos, .single hhop⟩
          · obtain ⟨b, k, htext, hb, _, hreach⟩ := hseen s hs
            exact ⟨b, k + 1, htext, hb, Nat.succ_pos k, hreach.trans (.single hhop)⟩

end Router

theorem link_hosting {table : CaseTable} {domains : Bucket DomainData} (a : Address) :
    link table (hosting domains) a = none := by
  rw [Option.eq_none_iff_forall_ne_some]
  intro b hlink
  obtain ⟨_, row, hrow, _⟩ := link_eq_some.mp hlink
  simp [hosting] at hrow

theorem routable_hosting (table : CaseTable) {domains : Bucket DomainData} :
    Routable table (hosting domains) := by
  refine ⟨fun a => ?_, fun a b hlink => ?_⟩
  · have hend : Ends (link table (hosting domains)) 0 a := link_hosting a
    exact hend.mono (Nat.zero_le _)
  · rw [link_hosting] at hlink
    cases hlink

theorem routable_run {table : CaseTable} {calls : List Call} {db : Directory}
    (h : Routable table db) (hops : ∀ call ∈ calls, keepsDomains call.op = true)
    (hlinks : RunAll (Call.apply table) (LinksWell table) calls db) :
    Routable table (run table calls db) := by
  induction calls generalizing db with
  | nil => exact h
  | cons call calls ih =>
    refine ih (h.change (hops call List.mem_cons_self) hlinks.1 (call.change table db)) ?_ hlinks.2
    exact fun other hmem => hops other (List.mem_cons_of_mem _ hmem)

def firstAlias : AliasData := ⟨bytes "b", bytes "c@d", bytes "d", true⟩

def secondAlias : AliasData := ⟨bytes "a", bytes "b@d", bytes "d", true⟩

def chainedAliases : List Call := [⟨.createAlias firstAlias, false⟩, ⟨.createAlias secondAlias, false⟩]

theorem link_createAlias {table : CaseTable} {db : Directory} {row : AliasData} {fault : Bool}
    {a b : Address} (h : link table (Call.apply table ⟨.createAlias row, fault⟩ db) a = some b) :
    link table db a = some b ∨ a.key table = row.key table ∧ b = normalizeRcpt table row.marshal.target := by
  have hchange : Change table db (.createAlias row) (Call.apply table ⟨.createAlias row, fault⟩ db) :=
    Call.change table ⟨.createAlias row, fault⟩ db
  generalize Call.apply table ⟨.createAlias row, fault⟩ db = db' at h hchange
  cases hchange with
  | kept => exact .inl h
  | accountCreated hop => rcases hop with hop | hop <;> cases hop
  | aliasCreated =>
    by_cases hkey : a.key table = row.key table
    · exact .inr ⟨hkey, (link_putAlias_of_eq hkey h).2⟩
    · rw [link_putAlias_of_ne hkey] at h
      exact .inl h

theorem link_firstAlias {a b : Address} (h : link Text.latin
    (Call.apply Text.latin ⟨.createAlias firstAlias, false⟩ (hosting oneDomain)) a = some b) :
    a.key Text.latin = bytes "d:b" ∧ b = ⟨bytes "c", bytes "d"⟩ := by
  rcases link_createAlias h with hold | ⟨hkey, rfl⟩
  · rw [link_hosting] at hold
    cases hold
  · exact ⟨hkey, by decide⟩

end UMail.Server
