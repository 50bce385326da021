import UMail.Imap.Search.Theorems
import UMail.Mailstore.Searching
import Mathlib.Data.List.Pairwise

namespace UMail.Mailstore

open Concurrency UMail.Storage UMail.Db UMail.Imap

theorem truthful_fails_overtaken :
    ¬ ∀ (setup : Setup) (kit : Toolkit) (state : State) (s : Selected) (recent : List UInt32)
        (order : Arrangement) (request : SearchRequest)
        (others : List (Prog (Except SearchFailure Answer)))
        (cfg : Config sig State (Except SearchFailure Answer)) (answer : Answer), s.snapOn = true →
      Run (machine setup) (fun _ _ _ _ => True)
        (searchPool kit state s recent order request others) cfg →
      cfg.pool[0]? = some (.done (.ok answer)) → Truthful s request.uidResults answer := by
  intro h
  have hrun : (((searchPool plainToolkit shiftedState shiftedView [] asGiven searchDeletedMark
      [silently (Operation.session demoSetup [.expungeReport inboxName])]).replay (machine demoSetup)
      (fun _ _ _ _ => True) overtakenSchedule).any fun cfg =>
        decide (finished cfg = some ⟨[2], [1]⟩)) = true := by
    decide
  obtain ⟨cfg, hcfg, hfact⟩ := (Option.any_eq_true _ _).mp hrun
  have hdone := finished_eq_some.mp (of_decide_eq_true hfact)
  obtain ⟨i, uid, hsnap, hnumber, hmatched⟩ := h demoSetup plainToolkit shiftedState shiftedView []
    asGiven searchDeletedMark _ cfg _ rfl (.of_replay hcfg) hdone 2 (List.mem_singleton_self 2)
  obtain rfl := List.mem_singleton.mp hmatched
  have hfirst : i = 0 := by
    match i, hsnap with
    | 0, _ => rfl
    | 1, hsnap => exact absurd hsnap (by decide)
    | i + 2, hsnap => cases hsnap
  rw [hfirst] at hnumber
  exact absurd hnumber (by decide)

-- At every call of the session the lists it has read are still beginnings of
-- the mailbox, and the call does not fail.
def OnlyGrows (setup : Setup) (s : Selected) (w : World sig State) (thread : Nat) (_ : Call)
    (choice : Choice) : Prop :=
  thread = 0 → choice.fault = false ∧
    (w.state.db.getMessageUIDs setup.user s.mailbox).length ≤ maxMessageCount ∧
    ∀ live ∈ listReads s.mailbox (ownLog 0 w.log), live <+: w.state.db.getMessageUIDs setup.user s.mailbox

instance (setup : Setup) (s : Selected) (w : World sig State) (thread : Nat) (c : Call) (choice : Choice) :
    Decidable (OnlyGrows setup s w thread c choice) :=
  inferInstanceAs (Decidable (thread = 0 → choice.fault = false ∧
    (w.state.db.getMessageUIDs setup.user s.mailbox).length ≤ maxMessageCount ∧
    ∀ live ∈ listReads s.mailbox (ownLog 0 w.log),
      live <+: w.state.db.getMessageUIDs setup.user s.mailbox))

-- Every list extends those that were read before it.
structure Chained (s : Selected) (own : List (Event sig)) : Prop where
  extends_ : (listReads s.mailbox own).Pairwise fun newer older => older <+: newer
  nodup : ∀ live ∈ listReads s.mailbox own, live.Nodup
  bounded : ∀ live ∈ listReads s.mailbox own, live.length ≤ maxMessageCount

def Latest (s : Selected) (own : List (Event sig)) (now : List UInt32) : Prop :=
  now ∈ listReads s.mailbox own ∧ ∀ live ∈ listReads s.mailbox own, live <+: now

def Call.IsListRead : Call → Prop
  | .getMessageUIDs _ => True
  | _ => False

section Rules

variable {setup : Setup} {s : Selected} {α β : Type}

theorem listReads_cons_none {event : Event sig} {own : List (Event sig)}
    (h : listRead s.mailbox event.call event.result = none) :
    listReads s.mailbox (event :: own) = listReads s.mailbox own := List.filterMap_cons_none h

variable {event : Event sig} {pre : List (Event sig) → Prop} {post : α → List (Event sig) → Prop}
  {program : Prog α} {own : List (Event sig)} {c : Call} {value : α} {ε : Type}

theorem mem_listReads_cons {live : List UInt32}
    (h : live ∈ listReads s.mailbox own) : live ∈ listReads s.mailbox (event :: own) := by
  unfold listReads
  rw [List.filterMap_cons]
  split
  · exact h
  · exact List.mem_cons_of_mem _ h

theorem listRead_of_not (h : ¬ c.IsListRead) (result : c.Result) :
    listRead s.mailbox c result = none := by
  cases c
  case getMessageUIDs => exact absurd trivial h
  all_goals rfl

theorem Chained.cons_none (h : Chained s own)
    (hnone : listRead s.mailbox event.call event.result = none) : Chained s (event :: own) := by
  have hsame := @listReads_cons_none s event own hnone
  refine ⟨?_, ?_, ?_⟩ <;> rw [hsame]
  · exact h.extends_
  · exact h.nodup
  · exact h.bounded

theorem Latest.cons_none {now : List UInt32} (h : Latest s own now)
    (hnone : listRead s.mailbox event.call event.result = none) : Latest s (event :: own) now := by
  unfold Latest
  rw [listReads_cons_none hnone]
  exact h

theorem Chained.nil : Chained s [] := ⟨.nil, List.forall_mem_nil _, List.forall_mem_nil _⟩

abbrev Searches (setup : Setup) (s : Selected) (pre : List (Event sig) → Prop) (program : Prog α)
    (post : α → List (Event sig) → Prop) : Prop :=
  Acts (machine setup) (OnlyGrows setup s) (fun _ _ => True) 0 (fun own => Chained s own ∧ pre own)
    program fun value own => Chained s own ∧ post value own

theorem searches_done (h : ∀ own, Chained s own → pre own → post value own) :
    Searches setup s pre (pure value) post :=
  .done fun own hown => ⟨hown.1, h own hown.1 hown.2⟩

theorem searches_bind {program : Prog β} {rest : β → Prog α} (middle : β → List (Event sig) → Prop)
    (hprogram : Searches setup s pre program middle)
    (hrest : ∀ value, Searches setup s (middle value) (rest value) post) :
    Searches setup s pre (program >>= rest) post := .bind _ hprogram hrest

theorem searches_entails (pre' : List (Event sig) → Prop) (hpre : ∀ own, pre own → pre' own)
    (h : Searches setup s pre' program post) :
    Searches setup s pre program post :=
  .entails _ (fun own hown => ⟨hown.1, hpre own hown.2⟩) h

theorem searches_call {rest : c.Result → Prog α} (hc : ¬ c.IsListRead)
    (hkeep : ∀ result own, pre own → pre (⟨0, c, result⟩ :: own))
    (hrest : ∀ result, Searches setup s pre (rest result) post) :
    Searches setup s pre (invoke c >>= rest) post := by
  refine .perform_bind (fun _ own => Chained s own ∧ pre own) ?_ hrest
  intro w choice result w' _ _ _ hpre
  exact ⟨trivial, hpre.1.cons_none (listRead_of_not hc result), hkeep result _ hpre.2⟩

theorem searches_row {mailbox : Bytes} {uid : UInt32}
    {rest : Except StorageError MessageMetadata → Prog α}
    (hkeep : ∀ result own, pre own → pre (⟨0, .getMessageMetadata mailbox uid, result⟩ :: own))
    (hrest : ∀ metadata, Searches setup s pre (rest (.ok metadata)) post) :
    Searches setup s pre (invoke (.getMessageMetadata mailbox uid) >>= rest) post := by
  refine .perform_bind (fun result own => (Chained s own ∧ pre own) ∧ ∃ metadata, result = .ok metadata)
    ?_ fun result => ?_
  · intro w choice result w' hok hexec _ hpre
    refine ⟨trivial, ⟨hpre.1.cons_none rfl, hkeep result _ hpre.2⟩, ?_⟩
    have hstep := (World.exec_eq_some.mp hexec).1
    change some (view choice _, w.state) = some (result, w'.state) at hstep
    rw [view, if_neg (by rw [(hok rfl).1]; exact Bool.false_ne_true)] at hstep
    obtain ⟨hresult, -⟩ := Prod.mk.inj (Option.some.inj hstep)
    exact ⟨_, hresult.symm⟩
  · refine .assuming ?_
    rintro ⟨metadata, rfl⟩
    exact hrest metadata

theorem searches_list {rest : Except StorageError (List UInt32) → Prog α}
    (hkeep : ∀ event own, pre own → pre (event :: own))
    (hrest : ∀ now, Searches setup s (fun own => pre own ∧ Latest s own now) (rest (.ok now)) post) :
    Searches setup s pre (invoke (.getMessageUIDs s.mailbox) >>= rest) post := by
  refine .perform_bind (fun result own => ∃ now, result = .ok now ∧
    Chained s own ∧ pre own ∧ Latest s own now) ?_ fun result => ?_
  · intro w choice result w' hok hexec _ hpre
    obtain ⟨hfault, hlen, hprefixes⟩ := hok rfl
    have hstep := (World.exec_eq_some.mp hexec).1
    change some (view choice _, w.state) = some (result, w'.state) at hstep
    rw [view, if_neg (by rw [hfault]; exact Bool.false_ne_true)] at hstep
    obtain ⟨rfl, -⟩ := Prod.mk.inj (Option.some.inj hstep)
    have hreads : ∀ own : List (Event sig), listReads s.mailbox
        (⟨0, .getMessageUIDs s.mailbox, .ok (w.state.db.getMessageUIDs setup.user s.mailbox)⟩ :: own) =
          w.state.db.getMessageUIDs setup.user s.mailbox :: listReads s.mailbox own := by
      intro own
      exact List.filterMap_cons_some (if_pos rfl)
    refine ⟨trivial, _, rfl, ⟨?_, ?_, ?_⟩, hkeep _ _ hpre.2, ?_, ?_⟩ <;> rw [hreads]
    · exact List.pairwise_cons.mpr ⟨hprefixes, hpre.1.extends_⟩
    · exact List.forall_mem_cons.mpr ⟨Std.ExtTreeMap.nodup_keys, hpre.1.nodup⟩
    · exact List.forall_mem_cons.mpr ⟨hlen, hpre.1.bounded⟩
    · exact List.mem_cons_self
    · exact List.forall_mem_cons.mpr ⟨List.prefix_refl _, hprefixes⟩
  · cases result with
    | error e =>
      rintro w ⟨now, hnow, -⟩
      cases hnow
    | ok live =>
      refine .entails _ ?_ (hrest live)
      rintro own ⟨now, hnow, hchained, hpre, hlatest⟩
      cases hnow
      exact ⟨hchained, hpre, hlatest⟩

theorem searches_carry {kept : List (Event sig) → Prop}
    (hkept : ∀ event own, kept own → kept (event :: own)) (h : Searches setup s pre program post) :
    Searches setup s (fun own => pre own ∧ kept own) program fun value own => post value own ∧ kept own := by
  refine .entails _ (fun own hown => ?_) (.weaken (.carry hkept h) fun value own hown => ?_)
  · exact ⟨⟨hown.1, hown.2.1⟩, hown.2.2⟩
  · exact ⟨hown.1.1, hown.1.2, hown.2⟩

-- The same, of what a program answers when it answers no error.
abbrev Yields {ε : Type} (setup : Setup) (s : Selected) (pre : List (Event sig) → Prop)
    (program : Prog (Except ε α)) (post : α → List (Event sig) → Prop) : Prop :=
  Searches setup s pre program fun out own => ∀ x, out = .ok x → post x own

theorem yields_ok (h : ∀ own, Chained s own → pre own → post value own) :
    Yields (ε := ε) setup s pre (pure (.ok value)) post :=
  searches_done fun own hchained hown _ hx => Except.ok.inj hx ▸ h own hchained hown

theorem yields_error {e : ε} : Yields setup s pre (pure (.error e)) post :=
  searches_done fun _ _ _ _ hx => by cases hx

theorem yields_bind {ε' : Type} {program : Prog (Except ε β)} {next : Except ε β → Prog (Except ε' α)}
    {found : β → List (Event sig) → Prop} (hpre : ∀ event own, pre own → pre (event :: own))
    (hprogram : Yields setup s (fun _ => True) program found)
    (herror : ∀ e, ∃ e', next (.error e) = pure (.error e'))
    (hnext : ∀ x, Yields setup s (fun own => found x own ∧ pre own) (next (.ok x)) post) :
    Yields setup s pre (program >>= next) post := by
  refine searches_entails (fun own => True ∧ pre own) (fun _ h => ⟨trivial, h⟩) ?_
  refine searches_bind _ (searches_carry hpre hprogram) fun out => ?_
  cases out with
  | error e =>
    obtain ⟨e', he⟩ := herror e
    rw [he]
    exact yields_error
  | ok x => exact searches_entails _ (fun own h => ⟨h.1 x rfl, h.2⟩) (hnext x)

end Rules

def Located (s : Selected) (own : List (Event sig)) (m : Nat × UInt32) : Prop :=
  0 < m.1 ∧ ∃ live ∈ listReads s.mailbox own, live[m.1 - 1]? = some m.2

structure Exact (s : Selected) (e : Evaluated) (own : List (Event sig)) : Prop where
  located : ∀ m ∈ e.found, Located s own m
  matched : ∀ uid, uid ∈ e.matched ↔ ∃ p, (p, uid) ∈ e.found

section Numbers

variable {setup : Setup} {s : Selected} {own : List (Event sig)} {m : Nat × UInt32} {e x : Evaluated}
  {now uids : List UInt32} {m' : Nat × UInt32} {i : Nat}

theorem Located.cons (event : Event sig) (h : Located s own m) : Located s (event :: own) m := by
  obtain ⟨hpos, live, hlive, hget⟩ := h
  exact ⟨hpos, live, mem_listReads_cons hlive, hget⟩

theorem Exact.cons (event : Event sig) (h : Exact s e own) : Exact s e (event :: own) :=
  ⟨fun m hm => (h.located m hm).cons event, h.matched⟩

theorem getElem?_of_isPrefix {live : List UInt32} {uid : UInt32} (h : live <+: now)
    (hget : live[i]? = some uid) : now[i]? = some uid := by
  obtain ⟨tail, rfl⟩ := h
  rw [List.getElem?_append_left (List.getElem?_eq_some_iff.mp hget).1]
  exact hget

theorem Located.latest (h : Located s own m) (hlatest : Latest s own now) :
    now[m.1 - 1]? = some m.2 := by
  obtain ⟨-, live, hlive, hget⟩ := h
  exact getElem?_of_isPrefix (hlatest.2 live hlive) hget

-- Any two of the lists are comparable, so a number has one UID and a UID one
-- number.
theorem Chained.common (hchained : Chained s own) (h : Located s own m) (h' : Located s own m') :
    ∃ now : List UInt32, now.Nodup ∧ now[m.1 - 1]? = some m.2 ∧ now[m'.1 - 1]? = some m'.2 := by
  obtain ⟨-, live, hlive, hget⟩ := h
  obtain ⟨-, live', hlive', hget'⟩ := h'
  have hcomparable : live <+: live' ∨ live' <+: live := by
    by_cases heq : live = live'
    · exact .inl (by rw [heq])
    · have hsymm : Std.Symm fun a b : List UInt32 => a <+: b ∨ b <+: a := ⟨fun _ _ h => h.symm⟩
      exact (hchained.extends_.imp Or.inr).forall hlive hlive' heq
  rcases hcomparable with hle | hle
  · exact ⟨live', hchained.nodup live' hlive', getElem?_of_isPrefix hle hget, hget'⟩
  · exact ⟨live, hchained.nodup live hlive, hget, getElem?_of_isPrefix hle hget'⟩

theorem Located.unique (hchained : Chained s own) (h : Located s own m) (h' : Located s own m') :
    m.1 = m'.1 ↔ m.2 = m'.2 := by
  obtain ⟨now, hnodup, hget, hget'⟩ := hchained.common h h'
  constructor
  · intro heq
    rw [heq, hget', Option.some.injEq] at hget
    exact hget.symm
  · intro heq
    rw [heq, ← hget'] at hget
    have hlt := (List.getElem?_eq_some_iff.mp (hget.trans hget')).1
    have hidx := (List.getElem?_inj hlt hnodup).mp hget
    have hpos := h.1
    have hpos' := h'.1
    omega

theorem Exact.mem_iff (hchained : Chained s own) (h : Exact s x own) (hm : Located s own m) :
    m.1 ∈ x.numbers ↔ m.2 ∈ x.matched := by
  rw [h.matched, Evaluated.numbers, List.mem_map]
  constructor
  · rintro ⟨m', hm', heq⟩
    have huid := ((h.located m' hm').unique hchained hm).mp heq
    exact ⟨m'.1, huid ▸ hm'⟩
  · rintro ⟨p, hp⟩
    exact ⟨(p, m.2), hp, ((h.located _ hp).unique hchained hm).mpr rfl⟩

theorem Exact.restrict (h : Exact s e own) {numbers : List Nat} (keep : Bool)
    (hsame : ∀ m, Located s own m → (m.1 ∈ numbers ↔ m.2 ∈ uids)) :
    Exact s (e.restrict numbers uids keep) own := by
  have hcontains : ∀ m ∈ e.found, numbers.contains m.1 = uids.contains m.2 := by
    intro m hm
    rw [Bool.eq_iff_iff, List.contains_iff_mem, List.contains_iff_mem]
    exact hsame m (h.located m hm)
  refine ⟨fun m hm => h.located m (List.mem_filter.mp hm).1, fun uid => ?_⟩
  simp only [Evaluated.restrict, List.mem_filter, h.matched]
  constructor
  · rintro ⟨⟨p, hp⟩, hkeep⟩
    exact ⟨p, hp, by rw [hcontains _ hp]; exact hkeep⟩
  · rintro ⟨p, hp, hkeep⟩
    exact ⟨⟨p, hp⟩, by rw [← hcontains _ hp]; exact hkeep⟩

theorem mem_positions (h : m ∈ positions i uids) : i ≤ m.1 ∧ uids[m.1 - i]? = some m.2 := by
  induction uids generalizing i with
  | nil => cases h
  | cons uid rest ih =>
    rcases List.mem_cons.mp h with rfl | h
    · exact ⟨le_rfl, by rw [Nat.sub_self]; rfl⟩
    obtain ⟨hle, hget⟩ := ih h
    refine ⟨by omega, ?_⟩
    rw [show m.1 - i = m.1 - (i + 1) + 1 by omega]
    exact hget

end Numbers

section Scans

variable {setup : Setup} {kit : Toolkit} {s : Selected} {recent : List UInt32}
  {pre : List (Event sig) → Prop} {uids live now : List UInt32} {found : List (Nat × UInt32)}
  {set : Bytes}

def BetweenReads (s : Selected) (pre : List (Event sig) → Prop) : Prop :=
  ∀ (event : Event sig) own, listRead s.mailbox event.call event.result = none → pre own →
    pre (event :: own)

theorem searchRow_searches (hpre : BetweenReads s pre) (c : SearchCriteria) (uid : UInt32) :
    Searches setup s pre (searchRow kit s recent c uid) fun _ => pre := by
  refine searches_call id (fun result own => hpre _ own rfl) fun metadata => ?_
  rcases metadata with e | metadata
  · exact searches_done fun _ _ h => h
  split_ifs
  · refine searches_call id (fun result own => hpre _ own rfl) fun data => ?_
    cases data <;> exact searches_done fun _ _ h => h
  · exact searches_done fun _ _ h => h

theorem scanEach_searches (hpre : BetweenReads s pre) (c : SearchCriteria)
    {seqRanges uidRanges : List SeqRange} {targets : List (Nat × UInt32)} :
    Searches setup s pre (scanEach kit s recent c seqRanges uidRanges uids targets) fun out own =>
      pre own ∧ ∀ found, out = .ok found → ∀ m ∈ found,
        m ∈ targets ∧ inSets c seqRanges uidRanges uids m.1 m.2 = true := by
  induction targets with
  | nil =>
    refine searches_done fun own _ hown => ⟨hown, fun found hfound m hm => ?_⟩
    cases hfound
    cases hm
  | cons target rest ih =>
    obtain ⟨p, uid⟩ := target
    refine searches_bind (fun hit own => pre own ∧
      (hit = .ok true → inSets c seqRanges uidRanges uids p uid = true)) ?_ fun hit => ?_
    · unfold scanMessage
      split_ifs with hin
      · refine .weaken (searchRow_searches hpre c uid) fun hit own h => ?_
        exact ⟨h.1, h.2, fun _ => hin⟩
      · exact searches_done fun _ _ h => ⟨h, fun htrue => by cases htrue⟩
    · cases hit with
      | error e => exact searches_done fun _ _ h => ⟨h.1, fun _ hfound => by cases hfound⟩
      | ok hit =>
        refine .entails (fun own => (Chained s own ∧ pre own) ∧
          (hit = true → inSets c seqRanges uidRanges uids p uid = true)) ?_
          (.assuming fun hin => searches_bind _ ih fun results => ?_)
        · exact fun own hown => ⟨⟨hown.1, hown.2.1⟩, fun htrue => hown.2.2 (by rw [htrue])⟩
        · cases results with
          | error e => exact searches_done fun _ _ h => ⟨h.1, fun _ hfound => by cases hfound⟩
          | ok results =>
            refine searches_done fun own _ h => ⟨h.1, fun found hfound m hm => ?_⟩
            cases hfound
            have hrest : m ∈ results → m ∈ (p, uid) :: rest ∧
                inSets c seqRanges uidRanges uids m.1 m.2 = true := by
              intro hm
              obtain ⟨hmem, hsets⟩ := h.2 results rfl m hm
              exact ⟨List.mem_cons_of_mem _ hmem, hsets⟩
            cases hit with
            | false => exact hrest hm
            | true =>
              rcases List.mem_cons.mp hm with rfl | hm
              · exact ⟨List.mem_cons_self, hin rfl⟩
              · exact hrest hm

structure ScanOf (c : SearchCriteria) (now : List UInt32) (found : List (Nat × UInt32)) : Prop where
  located : ∀ m ∈ found, 0 < m.1 ∧ now[m.1 - 1]? = some m.2
  inSet : c.seqSet ≠ [] → ∃ ranges, parseSequenceSet c.seqSet = .ok ranges ∧
    ∀ m ∈ found, inRanges ranges (UInt32.ofNat m.1) (UInt32.ofNat now.length) = true

theorem searchMessages_searches (c : SearchCriteria) :
    Yields setup s (fun _ => True) (searchMessages kit s recent c) fun found own =>
      ∃ now, Latest s own now ∧ ScanOf c now found := by
  refine searches_list (fun _ _ h => h) fun now => ?_
  dsimp only
  split
  · exact yields_error
  rename_i seqRanges hseq
  split
  · exact yields_error
  rename_i uidRanges _
  have hsettled : BetweenReads s fun own => True ∧ Latest s own now :=
    fun _ _ hnone h => ⟨trivial, h.2.cons_none hnone⟩
  refine .weaken (scanEach_searches hsettled c) ?_
  rintro out own ⟨hchained, ⟨-, hlatest⟩, hscan⟩
  refine ⟨hchained, fun found hfound => ⟨now, hlatest, fun m hm => ?_, fun hset => ?_⟩⟩
  · obtain ⟨hpos, hget⟩ := mem_positions (hscan found hfound m hm).1
    exact ⟨hpos, hget⟩
  · refine ⟨seqRanges, ?_, fun m hm => ?_⟩
    · cases hparse : parseSequenceSet c.seqSet with
      | error e =>
        rw [parseSet, hparse] at hseq
        cases hseq
      | ok ranges =>
        rw [parseSet, hparse] at hseq
        cases hseq
        rfl
    · have hin := (hscan found hfound m hm).2
      rw [inSets, Bool.and_eq_true, Bool.or_eq_true, decide_eq_true_eq] at hin
      exact hin.1.resolve_left hset

theorem seqToLive_searches (hsnap : s.snapOn = true) :
    Yields setup s (fun _ => True) (seqToLive s set) fun text own => text ≠ [] →
      ∃ live ∈ listReads s.mailbox own, text = liveSet live (s.named set) := by
  unfold seqToLive
  rw [if_pos hsnap]
  split
  · exact yields_error
  · exact yields_ok fun _ _ _ hne => absurd rfl hne
  · rename_i ranges _ hranges
    refine searches_list (fun _ _ h => h) fun now => yields_ok fun own _ hown _ => ?_
    exact ⟨now, hown.2.1, by rw [Selected.named, hranges]⟩

theorem mem_selectFrom_of {ranges : List SeqRange} {total : UInt32} {i p : Nat} {uid : UInt32}
    (hle : i ≤ p) (hget : uids[p - i]? = some uid)
    (hin : inRanges ranges (UInt32.ofNat p) total = true) :
    (p, uid) ∈ selectFrom ranges total i uids := by
  induction uids generalizing i with
  | nil => cases hget
  | cons u rest ih =>
    unfold selectFrom
    rcases Nat.eq_or_lt_of_le hle with rfl | hlt
    · rw [Nat.sub_self] at hget
      cases hget
      rw [if_pos hin]
      exact List.mem_cons_self
    · rw [show p - i = p - (i + 1) + 1 by omega] at hget
      split_ifs
      · exact List.mem_cons_of_mem _ (ih hlt hget)
      · exact ih hlt hget

theorem steady_of_isPrefix (h : live <+: now) : Steady uids live now :=
  fun _ _ _ => (List.take_prefix _ _).trans h

-- What a scan finds for a translated set is what the set names.
theorem ScanOf.named {c : SearchCriteria}
    (h : ScanOf { c with seqSet := liveSet live (s.named set) } now found) (hle : live <+: now)
    (hnodup : live.Nodup) (hlen : now.length ≤ maxMessageCount)
    (hne : liveSet live (s.named set) ≠ []) : ∀ m ∈ found, m.2 ∈ s.named set := by
  intro m hm
  obtain ⟨ranges, hparse, hin⟩ := h.inSet hne
  obtain ⟨hpos, hget⟩ := h.located m hm
  refine mem_of_selected (steady_of_isPrefix hle) hnodup hlen hparse ?_
  exact List.mem_map.mpr ⟨m, mem_selectFrom_of hpos hget (hin m hm), rfl⟩

theorem exact_scanned {c c' : SearchCriteria} {own : List (Event sig)} (h : ScanOf c' now found)
    (hnow : now ∈ listReads s.mailbox own) (hnamed : ∀ m ∈ found, named s c m.2 = true) :
    Exact s ⟨found, (found.map Prod.snd).filter (named s c)⟩ own := by
  refine ⟨fun m hm => ⟨(h.located m hm).1, now, hnow, (h.located m hm).2⟩, fun uid => ?_⟩
  rw [List.mem_filter, List.mem_map]
  constructor
  · rintro ⟨⟨m, hm, rfl⟩, -⟩
    exact ⟨m.1, hm⟩
  · rintro ⟨p, hp⟩
    exact ⟨⟨_, hp, rfl⟩, hnamed _ hp⟩

theorem evalFlat_searches (hsnap : s.snapOn = true) (c : SearchCriteria) :
    Yields setup s (fun _ => True) (evalFlat kit s recent c) (Exact s) := by
  unfold evalFlat
  split_ifs with hset
  · refine yields_bind (fun _ _ h => h) (seqToLive_searches hsnap) (fun _ => ⟨_, rfl⟩) fun text => ?_
    dsimp only
    split_ifs with hempty
    · exact yields_ok fun _ _ _ => ⟨List.forall_mem_nil _, fun uid => by simp⟩
    refine searches_entails
      (fun own => ∃ live ∈ listReads s.mailbox own, text = liveSet live (s.named c.seqSet))
      (fun own h => h.1 hempty) (yields_bind ?_ (searchMessages_searches { c with seqSet := text })
        (fun _ => ⟨_, rfl⟩) fun found => yields_ok ?_)
    · rintro event own ⟨live, hlive, htext⟩
      exact ⟨live, mem_listReads_cons hlive, htext⟩
    · rintro own hchained ⟨⟨now, hlatest, hscan⟩, live, hlive, rfl⟩
      refine exact_scanned hscan hlatest.1 fun m hm => ?_
      have hmem := hscan.named (hlatest.2 live hlive) (hchained.nodup live hlive)
        (hchained.bounded now hlatest.1) hempty m hm
      rw [named, Bool.or_eq_true]
      exact .inr (List.contains_iff_mem.mpr hmem)
  · refine yields_bind (fun _ _ h => h) (searchMessages_searches c) (fun _ => ⟨_, rfl⟩)
      fun found => yields_ok ?_
    rintro own - ⟨⟨now, hlatest, hscan⟩, -⟩
    refine exact_scanned hscan hlatest.1 fun m _ => ?_
    rw [named, Bool.or_eq_true]
    exact .inl (by rw [Bool.not_eq_true', eq_false_of_ne_true hset])

mutual

theorem evalSearch_searches (hsnap : s.snapOn = true) :
    (e : SearchExpr) → Yields setup s (fun _ => True) (evalSearch kit s recent e) (Exact s)
  | .mk flat terms => by
    rw [evalSearch]
    refine yields_bind (fun _ _ h => h) (evalFlat_searches hsnap flat) (fun _ => ⟨_, rfl⟩) fun base => ?_
    exact searches_entails _ (fun own h => h.1) (evalTerms_searches hsnap terms base)

theorem evalTerms_searches (hsnap : s.snapOn = true) :
    (terms : List SearchTerm) → (base : Evaluated) →
      Yields setup s (Exact s base) (evalTerms kit s recent terms base) (Exact s)
  | [], base => by
    rw [evalTerms]
    exact yields_ok fun _ _ h => h
  | t :: terms, base => by
    rw [evalTerms]
    split_ifs
    · exact yields_ok fun _ _ h => h
    refine searches_bind _ (evalTerm_searches hsnap t base) fun out => ?_
    cases out with
    | error e => exact yields_error
    | ok base => exact searches_entails _ (fun own h => h base rfl) (evalTerms_searches hsnap terms base)

theorem evalTerm_searches (hsnap : s.snapOn = true) :
    (t : SearchTerm) → (base : Evaluated) →
      Yields setup s (Exact s base) (evalTerm kit s recent t base) (Exact s)
  | .not e, base => by
    rw [evalTerm]
    refine yields_bind (fun event own h => h.cons event) (evalSearch_searches hsnap e) (fun _ => ⟨_, rfl⟩)
      fun x => yields_ok fun own hchained h => ?_
    exact h.2.restrict false fun m hm => h.1.mem_iff hchained hm
  | .sub e, base => by
    rw [evalTerm]
    refine yields_bind (fun event own h => h.cons event) (evalSearch_searches hsnap e) (fun _ => ⟨_, rfl⟩)
      fun x => yields_ok fun own hchained h => ?_
    exact h.2.restrict true fun m hm => h.1.mem_iff hchained hm
  | .or a b, base => by
    rw [evalTerm]
    refine yields_bind (fun event own h => h.cons event) (evalSearch_searches hsnap a) (fun _ => ⟨_, rfl⟩)
      fun x => ?_
    refine yields_bind (fun event own h => ⟨h.1.cons event, h.2.cons event⟩) (evalSearch_searches hsnap b)
      (fun _ => ⟨_, rfl⟩) fun y => yields_ok fun own hchained h => ?_
    refine h.2.2.restrict true fun m hm => ?_
    rw [List.mem_append, List.mem_append, h.2.1.mem_iff hchained hm, h.1.mem_iff hchained hm]

end

end Scans

section Answers

variable {setup : Setup} {kit : Toolkit} {s : Selected} {recent : List UInt32} {order : Arrangement}
  {e : Evaluated} {own : List (Event sig)} {now : List UInt32} {q : Nat}

theorem snapSeq_position {snap : List UInt32} {uid seq : UInt32} (h : snapSeq snap uid = some seq) :
    ∃ i, snap[i]? = some uid ∧ seq = UInt32.ofNat (i + 1) := by
  unfold snapSeq at h
  dsimp only at h
  split_ifs at h with hget
  exact ⟨_, hget, (Option.some.inj h).symm⟩

theorem fetchEach_searches {pre : List (Event sig) → Prop} (hpre : BetweenReads s pre)
    (targets : List (Nat × UInt32)) :
    Searches setup s pre (fetchEach s.mailbox targets) fun out own => pre own ∧ out = targets := by
  induction targets with
  | nil => exact searches_done fun _ _ h => ⟨h, rfl⟩
  | cons target rest ih =>
    refine searches_row (fun result own => hpre _ own rfl) fun _ => ?_
    refine searches_bind _ ih fun messages => searches_done fun own _ h => ⟨h.1, ?_⟩
    rw [h.2]

theorem fetchMessages_searches {set : Bytes} :
    Yields setup s (fun _ => True) (fetchMessages s.mailbox set) fun messages own =>
      ∃ now ranges, Latest s own now ∧ parseSequenceSet set = .ok ranges ∧
        messages = selectFrom ranges (UInt32.ofNat now.length) 1 now := by
  unfold fetchMessages
  split
  · exact yields_error
  rename_i ranges hparse
  have hread : Yields setup s (fun _ => True) (readUIDs s.mailbox) fun now own => Latest s own now := by
    refine searches_list (fun _ _ h => h) fun now => searches_done fun own _ hown live hlive => ?_
    split_ifs at hlive
    cases hlive
    exact hown.2
  refine yields_bind (fun _ _ h => h) hread (fun _ => ⟨_, rfl⟩) fun now => ?_
  refine searches_entails (fun own => Latest s own now) (fun own h => h.1) ?_
  refine searches_bind _ (fetchEach_searches (fun _ _ hnone h => h.cons_none hnone) _)
    fun messages => yields_ok fun own _ hown => ?_
  exact ⟨now, ranges, hown.1, hparse, hown.2⟩

theorem Exact.number_le (h : Exact s e own) (hchained : Chained s own)
    (hq : q ∈ e.numbers) : 0 < q ∧ q ≤ maxMessageCount := by
  obtain ⟨m, hm, rfl⟩ := List.mem_map.mp hq
  obtain ⟨hpos, live, hlive, hget⟩ := h.located m hm
  have hlt := (List.getElem?_eq_some_iff.mp hget).1
  have hle := hchained.bounded live hlive
  exact ⟨hpos, by omega⟩

theorem toNat_ofNat_of_le {n : Nat} (h : n ≤ maxMessageCount) : (UInt32.ofNat n).toNat = n := by
  unfold maxMessageCount at h
  exact UInt32.toNat_ofNat_of_lt' (by simp only [UInt32.size]; omega)

theorem Exact.matched_at (h : Exact s e own) (hlatest : Latest s own now)
    (hq : q ∈ e.numbers) {uid : UInt32} (hget : now[q - 1]? = some uid) : uid ∈ e.matched := by
  obtain ⟨m, hm, rfl⟩ := List.mem_map.mp hq
  rw [(h.located m hm).latest hlatest, Option.some.injEq] at hget
  exact (h.matched uid).mpr ⟨m.1, hget ▸ hm⟩

-- The set of the numbers selects the messages that match, as the list has only
-- grown.
theorem Exact.fetched (h : Exact s e own) (hchained : Chained s own) (hlatest : Latest s own now)
    {ranges : List SeqRange}
    (hparse : parseSequenceSet (joinComma (e.numbers.map fun q => formatUint (UInt32.ofNat q))) =
      .ok ranges) {m : Nat × UInt32} (hm : m ∈ selectFrom ranges (UInt32.ofNat now.length) 1 now) :
    m.2 ∈ e.matched := by
  have hne : ∀ n ∈ e.numbers.map UInt32.ofNat, n ≠ 0 := by
    intro n hn hzero
    obtain ⟨q, hq, rfl⟩ := List.mem_map.mp hn
    have hpos := h.number_le hchained hq
    rw [← toNat_ofNat_of_le hpos.2, hzero] at hpos
    exact absurd hpos.1 (by decide)
  have hmap : (e.numbers.map fun q => formatUint (UInt32.ofNat q)) =
      (e.numbers.map UInt32.ofNat).map formatUint := by
    rw [List.map_map]
    rfl
  rw [hmap, parseSequenceSet_joinComma _ hne] at hparse
  cases hparse
  obtain ⟨j, hj, hp, hin⟩ := mem_selectFrom hm
  obtain ⟨q, hq, hsame⟩ := List.mem_map.mp (mem_of_inRanges hne hin)
  have hlt := (List.getElem?_eq_some_iff.mp hj).1
  have hle := hchained.bounded now hlatest.1
  have hnat := congrArg UInt32.toNat hsame
  rw [toNat_ofNat_of_le (h.number_le hchained hq).2, toNat_ofNat_of_le (by omega)] at hnat
  refine h.matched_at hlatest hq ?_
  rw [show q - 1 = j by omega]
  exact hj

-- All messages are fetched, so the count of SORT is the number.
theorem selectFrom_all {total i : Nat} {uids : List UInt32} (hi : 0 < i)
    (hlen : i + uids.length ≤ total + 1) (htotal : total ≤ maxMessageCount) :
    selectFrom [⟨1, 0⟩] (UInt32.ofNat total) i uids = positions i uids := by
  induction uids generalizing i with
  | nil => rfl
  | cons uid rest ih =>
    rw [List.length_cons] at hlen
    have hin : inRanges [⟨1, 0⟩] (UInt32.ofNat i) (UInt32.ofNat total) = true := by
      have hone : ¬ (1 : UInt32) > UInt32.ofNat total := by
        rw [gt_iff_lt, UInt32.lt_iff_toNat_lt, toNat_ofNat_of_le htotal]
        exact Nat.not_lt.mpr (by change 1 ≤ total; omega)
      have hlow : UInt32.ofNat i ≥ 1 := by
        rw [ge_iff_le, UInt32.le_iff_toNat_le, toNat_ofNat_of_le (by omega)]
        exact hi
      have hhigh : UInt32.ofNat i ≤ UInt32.ofNat total := by
        rw [UInt32.le_iff_toNat_le, toNat_ofNat_of_le (by omega), toNat_ofNat_of_le htotal]
        omega
      simp [inRanges, SeqRange.contains, hone, hlow, hhigh]
    rw [selectFrom, if_pos hin, ih (Nat.succ_pos i) (by omega), positions]

theorem map_snd_positions (i : Nat) (uids : List UInt32) : (positions i uids).map Prod.snd = uids := by
  induction uids generalizing i with
  | nil => rfl
  | cons uid rest ih => rw [positions, List.map_cons, ih]

theorem renumber_positions (kind : SearchKind) (uids : List UInt32) :
    renumber kind (positions 1 uids) = positions 1 uids := by
  cases kind with
  | sort => rw [renumber, map_snd_positions]
  | search | thread => rfl

variable (hsnap : s.snapOn = true)

include hsnap

theorem liveSeqsToSession_searches (e : Evaluated) :
    Searches setup s (Exact s e) (liveSeqsToSession s e.numbers) fun out _ =>
      ∀ n ∈ out, ∃ i uid, s.snap[i]? = some uid ∧ n = UInt32.ofNat (i + 1) ∧ uid ∈ e.matched := by
  unfold liveSeqsToSession
  rw [hsnap, Bool.not_true]
  split_ifs with hempty
  · rw [of_decide_eq_true hempty]
    exact searches_done fun _ _ _ n hn => by cases hn
  refine searches_list (fun event own h => h.cons event) fun now => searches_done ?_
  rintro own - ⟨hexact, hlatest⟩ n hn
  obtain ⟨q, hq, hseq⟩ := List.mem_filterMap.mp hn
  unfold sessionNumber at hseq
  split_ifs at hseq
  obtain ⟨uid, hget, hseq⟩ := Option.bind_eq_some_iff.mp hseq
  obtain ⟨i, hi, rfl⟩ := snapSeq_position hseq
  exact ⟨i, uid, hi, rfl, hexact.matched_at hlatest hq hget⟩

theorem searchAnswer_searches (uidResults : Bool) (e : Evaluated) :
    Yields setup s (Exact s e) (searchAnswer s uidResults e)
      fun answer _ => Truthful s uidResults answer := by
  unfold searchAnswer
  split_ifs with huid hempty
  · exact yields_ok fun _ _ _ n hn => by cases hn
  · refine yields_bind (fun event own h => h.cons event) fetchMessages_searches (fun _ => ⟨_, rfl⟩)
      fun messages => yields_ok fun own hchained hown n hn => ?_
    obtain ⟨⟨now, ranges, hlatest, hparse, rfl⟩, hexact⟩ := hown
    rw [if_pos huid]
    obtain ⟨m, hm, rfl⟩ := List.mem_map.mp (List.mem_filter.mp hn).1
    exact hexact.fetched hchained hlatest hparse hm
  · refine searches_bind _ (liveSeqsToSession_searches hsnap e)
      fun numbers => yields_ok fun _ _ hnumbers n hn => ?_
    rw [if_neg huid]
    exact hnumbers n hn

theorem arrangedAnswer_searches (kind : SearchKind) (uidResults : Bool) (e : Evaluated) :
    Yields setup s (Exact s e) (arrangedAnswer s order kind uidResults e) fun answer _ =>
      Truthful s uidResults answer := by
  refine yields_bind (fun event own h => h.cons event) fetchMessages_searches (fun _ => ⟨_, rfl⟩)
    fun messages => yields_ok fun own hchained hown n hn => ?_
  obtain ⟨⟨now, ranges, hlatest, hparse, rfl⟩, hexact⟩ := hown
  have hranges : parseSequenceSet allMessages = .ok [⟨1, 0⟩] := by decide
  rw [hranges] at hparse
  cases hparse
  obtain ⟨a, ha, rfl⟩ := List.mem_map.mp hn
  obtain ⟨m, hm, hanswered⟩ := List.mem_filterMap.mp (order.mem ha)
  obtain ⟨hm, hwanted⟩ := List.mem_filter.mp hm
  rw [selectFrom_all Nat.one_pos (by omega) (hchained.bounded now hlatest.1), renumber_positions] at hm
  have hmatched := hexact.matched_at hlatest (List.contains_iff_mem.mp hwanted) (mem_positions hm).2
  rw [answered, if_pos hsnap, Option.map_eq_some_iff] at hanswered
  obtain ⟨seq, hseq, rfl⟩ := hanswered
  split_ifs with huid
  · exact hmatched
  · obtain ⟨i, hi, rfl⟩ := snapSeq_position hseq
    exact ⟨i, m.2, hi, rfl, hmatched⟩

theorem withMatches_searches (program : SearchExpr)
    {next : Evaluated → Prog (Except SearchFailure Answer)} {uidResults : Bool}
    (hnext : ∀ e, Yields setup s (Exact s e) (next e) fun answer _ => Truthful s uidResults answer) :
    Yields setup s (fun _ => True) (withMatches kit s recent program next) fun answer _ =>
      Truthful s uidResults answer := by
  refine yields_bind (fun _ _ h => h) (evalSearch_searches hsnap program) (fun _ => ⟨_, rfl⟩) fun e => ?_
  exact searches_entails _ (fun own h => h.1) (hnext e)

theorem SearchRequest.run_searches (request : SearchRequest) :
    Yields setup s (fun _ => True) (request.run kit s recent order) fun answer _ =>
      Truthful s request.uidResults answer := by
  unfold SearchRequest.run
  split
  · exact withMatches_searches hsnap _ (searchAnswer_searches hsnap _)
  · exact withMatches_searches hsnap _ (arrangedAnswer_searches hsnap _ _)
  · exact withMatches_searches hsnap _ (arrangedAnswer_searches hsnap _ _)

end Answers

-- In every interleaving in which the mailbox only grows at its end while the
-- session searches it, the answer has no number of another message.
theorem truthful_of_onlyGrows (setup : Setup) (kit : Toolkit) (state : State) (s : Selected)
    (recent : List UInt32) (order : Arrangement) (request : SearchRequest)
    (others : List (Prog (Except SearchFailure Answer)))
    (cfg : Config sig State (Except SearchFailure Answer)) (answer : Answer) (hsnap : s.snapOn = true)
    (hrun : Run (machine setup) (OnlyGrows setup s)
      (searchPool kit state s recent order request others) cfg)
    (hdone : cfg.pool[0]? = some (.done (.ok answer))) : Truthful s request.uidResults answer := by
  refine hrun.acts_done (fun _ _ => True) (fun _ => trivial)
    (fun i out _ => i = 0 → ∀ answer, out = .ok answer → Truthful s request.uidResults answer)
    (fun i program hi => ?_) hdone rfl answer rfl
  cases i with
  | zero =>
    cases hi
    refine Acts.entails _ ?_ (.weaken (SearchRequest.run_searches hsnap request) ?_)
    · rintro own rfl
      exact ⟨.nil, trivial⟩
    · exact fun out own hown _ => hown.2
  | succ i =>
    refine Acts.entails (fun _ => True) (fun _ _ => trivial)
      (.weaken (.of_calls (program.calls_true) fun _ _ _ _ _ _ => ⟨trivial, trivial⟩) ?_)
    exact fun _ _ _ hzero => absurd hzero (Nat.succ_ne_zero i)

def searchedSchedule : List (Nat × Choice) :=
  List.replicate 4 (0, demoChoice) ++ List.replicate 5 (1, demoChoice)

theorem truthful_search_expunge : ∃ cfg answer,
    Run (machine demoSetup) (OnlyGrows demoSetup shiftedView)
      (searchPool plainToolkit shiftedState shiftedView [] asGiven searchDeletedMark
        [silently (Operation.session demoSetup [.expungeReport inboxName])]) cfg ∧
    answer.numbers = [1] ∧ Truthful shiftedView false answer := by
  have hrun : (((searchPool plainToolkit shiftedState shiftedView [] asGiven searchDeletedMark
      [silently (Operation.session demoSetup [.expungeReport inboxName])]).replay (machine demoSetup)
      (OnlyGrows demoSetup shiftedView) searchedSchedule).any fun cfg =>
        decide (finished cfg = some ⟨[1], [1]⟩)) = true := by
    decide
  obtain ⟨cfg, hcfg, hfact⟩ := (Option.any_eq_true _ _).mp hrun
  exact ⟨cfg, ⟨[1], [1]⟩, .of_replay hcfg, rfl,
    truthful_of_onlyGrows demoSetup plainToolkit shiftedState shiftedView [] asGiven searchDeletedMark
      _ cfg _ rfl (.of_replay hcfg) (finished_eq_some.mp (of_decide_eq_true hfact))⟩

end UMail.Mailstore
