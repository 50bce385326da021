import UMail.Smtp.Scram
import UMail.Smtp.Session.Theorems

namespace UMail.Smtp

open Auth (Crypto encodeToString decodeString parseAttributes addAttribute parseClientFirstMessage
  parseClientFinalMessage buildServerFirstMessage newSCRAMSHA256 clientProof scramAuthMessage xorBytes)
open Buffered (Reader)
open Text (trimSpace)
open UMail.Storage (Bytes bytes)

section Spec

def attributeValue (key : UInt8) : Bytes → Option Bytes
  | k :: 61 :: value => if k = key then some value else none
  | _ => none

def attributeValues (key : UInt8) (message : Bytes) : List Bytes :=
  (message.splitOn 44).filterMap (attributeValue key)

structure Transcript where
  flag : Bytes
  authz : Bytes
  bare : Bytes
  name : Bytes
  nonce : Bytes
  withoutProof : Bytes
  binding : Bytes
  finalNonce : Bytes
  proof : Bytes

def Transcript.gs2Header (t : Transcript) : Bytes := t.flag ++ [44] ++ t.authz ++ [44]

-- A header of two parts in front of the bare message, the proof behind the rest
-- of the last one, and every attribute once.
structure Transcript.Of (t : Transcript) (clientFirst clientFinal : Bytes) : Prop where
  first : clientFirst = t.gs2Header ++ t.bare
  flag : 44 ∉ t.flag
  authz : 44 ∉ t.authz
  name : attributeValues 110 t.bare = [t.name]
  nonce : attributeValues 114 t.bare = [t.nonce]
  final : clientFinal = t.withoutProof ++ bytes ",p=" ++ t.proof
  proof : 44 ∉ t.proof
  binding : attributeValues 99 t.withoutProof = [t.binding]
  finalNonce : attributeValues 114 t.withoutProof = [t.finalNonce]

-- The proof is the key of the client under its signature of the three messages.
-- Of the key the server has a hash only.
def CorrectProof (crypto : Crypto) (password salt transcript proof : Bytes) : Prop :=
  let clientKey := crypto.hmac (crypto.hi password salt iterations) (bytes "Client Key")
  let signature := crypto.hmac (crypto.sha256 clientKey) transcript
  ∃ key, crypto.sha256 key = crypto.sha256 clientKey ∧ key.length = signature.length ∧
    proof = xorBytes key signature

def Transcript.authMessage (t : Transcript) (serverNonce salt : Bytes) : Bytes :=
  t.bare ++ bytes "," ++ buildServerFirstMessage (t.nonce ++ serverNonce) salt iterations ++ bytes "," ++
    t.withoutProof

structure Transcript.Authenticates (t : Transcript) (server : AuthServer)
    (serverNonce salt username : Bytes) : Prop where
  name : username = server.toLower t.name
  authzid : ∀ authzid, t.authz = bytes "a=" ++ authzid → authzid = [] ∨ server.toLower authzid = username
  nonce : t.finalNonce = t.nonce ++ serverNonce
  binding : t.binding = encodeToString t.gs2Header
  proof : ∃ password proof, server.onGetPassword username = some password ∧
    decodeString t.proof = some proof ∧
    CorrectProof server.crypto password salt (t.authMessage serverNonce salt) proof

def responses (initial : Option Bytes) (r : Reader UInt8) : Option (Bytes × Bytes) :=
  match initial with
  | some text => (readAuthLine r).toOption.map fun last => (text, trimSpace last.1)
  | none => (readAuthLine r).toOption.bind fun read =>
    (readAuthLine read.2).toOption.map fun last => (trimSpace read.1, trimSpace last.1)

def clientMessages (initial : Option Bytes) (r : Reader UInt8) : Option (Bytes × Bytes) :=
  (responses initial r).bind fun texts =>
    (decodeString texts.1).bind fun first => (decodeString texts.2).map fun final => (first, final)

-- strings.SplitN of the argument, whose first part is the mechanism.
def initialResponse (arg : Bytes) : Option Bytes :=
  if 32 ∈ arg then some ((arg.dropWhile (· ≠ 32)).drop 1) else none

end Spec

section Attributes

variable {key : UInt8} {message before after : Bytes} {pairs : List Bytes}
  {acc parts : List (UInt8 × Bytes)}

theorem attributeValues_append : attributeValues key (before ++ 44 :: after) =
    attributeValues key before ++ attributeValues key after := by
  rw [attributeValues, List.splitOn_append_cons_self, List.filterMap_append]
  rfl

theorem lookup_addAttribute {pair : Bytes} (h : addAttribute acc pair = some parts) :
    parts.lookup key = (attributeValue key pair).or (acc.lookup key) := by
  unfold addAttribute at h
  split at h
  · rename_i k value
    cases h
    by_cases hk : k = key
    · simp [attributeValue, hk]
    · have hne : (key == k) = false := by simpa using Ne.symm hk
      simp [attributeValue, hk, List.lookup_cons, hne]
  · cases h
  · rename_i hpair hlong
    cases h
    have hnone : attributeValue key pair = none := by
      unfold attributeValue
      split
      · exact absurd rfl (hpair _ _)
      · rfl
    rw [hnone, Option.none_or]

theorem lookup_foldlM (h : pairs.foldlM addAttribute acc = some parts) :
    parts.lookup key = ((pairs.filterMap (attributeValue key)).getLast?).or (acc.lookup key) := by
  induction pairs generalizing acc with
  | nil =>
    cases h
    rfl
  | cons pair pairs ih =>
    obtain ⟨acc', hadd, hrest⟩ := Option.bind_eq_some_iff.mp h
    rw [ih hrest, lookup_addAttribute hadd, List.filterMap_cons]
    cases attributeValue key pair with
    | none => simp
    | some value => cases hlast : (pairs.filterMap (attributeValue key)).getLast? <;>
        simp [List.getLast?_cons, hlast]

theorem lookup_parseAttributes (h : parseAttributes message = some parts) :
    parts.lookup key = (attributeValues key message).getLast? := by
  rw [lookup_foldlM h, List.lookup_nil, Option.or_none, attributeValues]

end Attributes

section Cutting

variable {clientFirst clientFinal text s before : Bytes} {t : Transcript} {key : UInt8}

theorem takeWhile_cut (after : Bytes) (h : 44 ∉ before) :
    (before ++ 44 :: after).takeWhile (· ≠ 44) = before ∧
      ((before ++ 44 :: after).dropWhile (· ≠ 44)).drop 1 = after := by
  have hall : ∀ c ∈ before, (decide (c ≠ 44)) = true := fun c hc =>
    decide_eq_true fun heq => h (heq ▸ hc)
  rw [List.takeWhile_append_of_pos hall, List.dropWhile_append_of_pos hall]
  simp

theorem splitGS2_of (h : t.Of clientFirst clientFinal) :
    splitGS2 clientFirst = some (t.flag, t.authz, t.bare) := by
  have hfirst : clientFirst = t.flag ++ 44 :: (t.authz ++ 44 :: t.bare) := by
    rw [h.first, Transcript.gs2Header]
    simp
  have hflag := takeWhile_cut (t.authz ++ 44 :: t.bare) h.flag
  have hauthz := takeWhile_cut t.bare h.authz
  rw [splitGS2, hfirst, hflag.2, if_pos ⟨by simp, by simp⟩, hflag.1, hauthz.1, hauthz.2]

-- What the header says comes before what the bare message says.
theorem getLast?_attributeValues_first {value : Bytes} (h : t.Of clientFirst clientFinal)
    (hbare : attributeValues key t.bare = [value]) :
    (attributeValues key clientFirst).getLast? = some value := by
  have hfirst : clientFirst = (t.flag ++ 44 :: t.authz) ++ 44 :: t.bare := by
    rw [h.first, Transcript.gs2Header]
    simp
  rw [hfirst, attributeValues_append, hbare, List.getLast?_append, List.getLast?_singleton, Option.some_or]

theorem lastIndex_none {c : UInt8} (h : c ∉ s) : lastIndex (c :: text) s = none := by
  induction s with
  | nil => rfl
  | cons d s ih =>
    obtain ⟨hd, hs⟩ := not_or.mp (List.mem_cons.not.mp h)
    simp [lastIndex, ih hs, hd]

theorem lastIndex_append {i : Nat} (h : lastIndex text s = some i) :
    lastIndex text (before ++ s) = some (before.length + i) := by
  induction before with
  | nil => simpa using h
  | cons c before ih =>
    rw [List.cons_append, lastIndex, ih, List.length_cons]
    simp only [Option.some.injEq]
    omega

-- Behind the proof there is nothing else, so it is where the text is cut.
theorem lastIndex_of (h : t.Of clientFirst clientFinal) :
    lastIndex (bytes ",p=") clientFinal = some t.withoutProof.length := by
  have hseparator : bytes ",p=" = [44, 112, 61] := by decide
  have hend : lastIndex [44, 112, 61] (44 :: 112 :: 61 :: t.proof) = some 0 := by
    have hnone : lastIndex [44, 112, 61] (112 :: 61 :: t.proof) = none :=
      lastIndex_none (by simp [h.proof])
    rw [lastIndex, hnone]
    simp
  rw [h.final, List.append_assoc]
  exact lastIndex_append hend

theorem take_final (h : t.Of clientFirst clientFinal) :
    clientFinal.take t.withoutProof.length = t.withoutProof := by
  rw [h.final, List.append_assoc, List.take_left]

theorem attributeValues_final (h : t.Of clientFirst clientFinal) : attributeValues key clientFinal =
      attributeValues key t.withoutProof ++ if key = 112 then [t.proof] else [] := by
  have hseparator : bytes ",p=" = [44, 112, 61] := by decide
  have hproof : 44 ∉ (112 : UInt8) :: 61 :: t.proof := by simp [h.proof]
  have hlast : attributeValues key (112 :: 61 :: t.proof) = if key = 112 then [t.proof] else [] := by
    rw [attributeValues, List.splitOn_eq_singleton hproof]
    by_cases hkey : key = 112
    · simp [attributeValue, hkey]
    · simp [attributeValue, hkey, Ne.symm hkey]
  rw [h.final, List.append_assoc, ← hlast]
  exact attributeValues_append

end Cutting

section Exchange

variable {server : AuthServer} {env : ScramEnv} {initial : Option Bytes} {r : Reader UInt8}
  {clientFirst clientFinal serverNonce salt signature username text : Bytes} {first : ScramFirst}
  {reply : Reply}

theorem bind_ok {ε α β : Type} {x : Except ε α} {f : α → Except ε β} {b : β}
    (h : (x >>= f) = .ok b) : ∃ a, x = .ok a ∧ f a = .ok b := by
  cases x with
  | error e => cases h
  | ok a => exact ⟨a, rfl, h⟩

theorem checkFirst_ok (h : checkFirst server clientFirst = .ok first) :
    ∃ msg flag authz, parseClientFirstMessage clientFirst = some msg ∧
      splitGS2 clientFirst = some (flag, authz, first.bare) ∧ first.username = server.toLower msg.authCID ∧
      first.nonce = msg.nonce ∧ checkAuthzid server first.username authz = .ok () := by
  unfold checkFirst at h
  split at h
  · rename_i msg flag authz bare hmsg hsplit
    obtain ⟨-, -, h⟩ := bind_ok h
    obtain ⟨-, -, h⟩ := bind_ok h
    obtain ⟨-, -, h⟩ := bind_ok h
    obtain ⟨⟨⟩, hauthz, h⟩ := bind_ok h
    cases h
    exact ⟨msg, flag, authz, hmsg, hsplit, rfl, rfl, hauthz⟩
  · cases h

theorem parseClientFinalMessage_some {msg : Auth.SCRAMClientFinalMessage}
    (h : parseClientFinalMessage clientFinal = some msg) :
    (attributeValues 114 clientFinal).getLast? = some msg.nonce ∧
      ∃ proof, (attributeValues 112 clientFinal).getLast? = some proof ∧
        decodeString proof = some msg.clientProof := by
  obtain ⟨parts, hparts, h⟩ := Option.bind_eq_some_iff.mp h
  obtain ⟨channel, -, h⟩ := Option.bind_eq_some_iff.mp h
  obtain ⟨nonce, hnonce, h⟩ := Option.bind_eq_some_iff.mp h
  obtain ⟨proof, hproof, h⟩ := Option.bind_eq_some_iff.mp h
  obtain ⟨decoded, hdecoded, h⟩ := Option.bind_eq_some_iff.mp h
  cases h
  rw [lookup_parseAttributes hparts] at hnonce hproof
  exact ⟨hnonce, proof, hproof, hdecoded⟩

theorem checkFinal_ok (h : checkFinal server first serverNonce salt clientFinal = .ok signature) :
    ∃ msg password proofAt, parseClientFinalMessage clientFinal = some msg ∧
      msg.nonce = first.nonce ++ serverNonce ∧ server.onGetPassword first.username = some password ∧
      lastIndex (bytes ",p=") clientFinal = some proofAt ∧
      proofOK server.crypto (newSCRAMSHA256 server.crypto password salt iterations).storedKey
        msg.clientProof (clientProof server.crypto
          (newSCRAMSHA256 server.crypto password salt iterations).storedKey first.bare
          (buildServerFirstMessage (first.nonce ++ serverNonce) salt iterations)
          (clientFinal.take proofAt)) = true := by
  unfold checkFinal at h
  rcases hmsg : parseClientFinalMessage clientFinal with _ | msg
  · simp [hmsg] at h
  by_cases hnonce : msg.nonce = first.nonce ++ serverNonce
  · cases hpassword : server.onGetPassword first.username with
    | none => simp [hmsg, hnonce, hpassword] at h
    | some password =>
      cases hproof : lastIndex (bytes ",p=") clientFinal with
      | none => simp [hmsg, hnonce, hpassword, hproof] at h
      | some proofAt =>
        simp only [hmsg, hnonce, ne_eq, not_true_eq_false, if_false, hpassword, hproof] at h
        split at h
        · rename_i hok
          exact ⟨msg, password, proofAt, rfl, hnonce, rfl, rfl, hok⟩
        · cases h
  · simp [hmsg, hnonce] at h

theorem finishSCRAM_authenticated
    (h : (finishSCRAM server first serverNonce salt text r).result = .authenticated username reply) :
    ∃ clientFinal signature, decodeString text = some clientFinal ∧
      checkFinal server first serverNonce salt clientFinal = .ok signature ∧ username = first.username := by
  unfold finishSCRAM at h
  rcases htext : decodeString text with _ | clientFinal
  · simp [htext, Refusal.exchanged] at h
  cases hcheck : checkFinal server first serverNonce salt clientFinal with
  | error refusal => simp [htext, hcheck, Refusal.exchanged] at h
  | ok signature =>
    simp only [htext, hcheck, AuthResult.authenticated.injEq] at h
    exact ⟨clientFinal, signature, rfl, hcheck, h.1.symm⟩

theorem readAuthLine_error {e : Exchanged} (h : readAuthLine r = .error e) :
    e.result ≠ .authenticated username reply := by
  unfold readAuthLine at h
  split at h
  · cases h
    exact AuthResult.noConfusion
  · split_ifs at h <;> (cases h; exact AuthResult.noConfusion)

theorem askClient_authenticated {challenge : Bytes} {written : Bool} {next : Bytes → Reader UInt8 → Exchanged}
    (h : (askClient challenge written r next).result = .authenticated username reply) :
    ∃ line r', readAuthLine r = .ok (line, r') ∧
      (next (trimSpace line) r').result = .authenticated username reply := by
  unfold askClient Exchanged.after at h
  cases written with
  | false => cases h
  | true =>
    cases hread : readAuthLine r with
    | error e =>
      simp only [hread, Bool.not_true] at h
      exact absurd h (readAuthLine_error hread)
    | ok read => exact ⟨read.1, read.2, rfl, by simpa [hread] using h⟩

theorem challengeSCRAM_authenticated
    (h : (challengeSCRAM server env first r).result = .authenticated username reply) :
    ∃ serverNonce salt line r', env.serverNonce = some serverNonce ∧ env.salt = some salt ∧
      readAuthLine r = .ok (line, r') ∧
      (finishSCRAM server first serverNonce salt (trimSpace line) r').result =
        .authenticated username reply := by
  unfold challengeSCRAM at h
  split at h
  · rename_i serverNonce salt hnonce hsalt
    obtain ⟨line, r', hread, h⟩ := askClient_authenticated h
    exact ⟨serverNonce, salt, line, r', hnonce, hsalt, hread, h⟩
  · cases h

theorem startSCRAM_authenticated
    (h : (startSCRAM server env text r).result = .authenticated username reply) :
    ∃ clientFirst first, decodeString text = some clientFirst ∧
      checkFirst server clientFirst = .ok first ∧
      (challengeSCRAM server env first r).result = .authenticated username reply := by
  unfold startSCRAM at h
  rcases htext : decodeString text with _ | clientFirst
  · simp [htext, Refusal.exchanged] at h
  cases hcheck : checkFirst server clientFirst with
  | error refusal => simp [htext, hcheck, Refusal.exchanged] at h
  | ok first => exact ⟨clientFirst, first, rfl, hcheck, by simpa [htext, hcheck] using h⟩

-- An exchange that ends well has two messages that were checked.
theorem handleAuthSCRAMSHA256_authenticated
    (h : (handleAuthSCRAMSHA256 server env initial r).result = .authenticated username reply) :
    ∃ clientFirst clientFinal serverNonce salt first signature,
      clientMessages initial r = some (clientFirst, clientFinal) ∧ env.serverNonce = some serverNonce ∧
      env.salt = some salt ∧ checkFirst server clientFirst = .ok first ∧
      checkFinal server first serverNonce salt clientFinal = .ok signature ∧
      username = first.username := by
  cases initial with
  | some text =>
    obtain ⟨clientFirst, first, hfirst, hcheck, h⟩ := startSCRAM_authenticated h
    obtain ⟨serverNonce, salt, line, r', hnonce, hsalt, hread, h⟩ := challengeSCRAM_authenticated h
    obtain ⟨clientFinal, signature, hfinal, hlast, husername⟩ := finishSCRAM_authenticated h
    refine ⟨clientFirst, clientFinal, serverNonce, salt, first, signature, ?_, hnonce, hsalt, hcheck,
      hlast, husername⟩
    simp [clientMessages, responses, hread, Except.toOption, hfirst, hfinal]
  | none =>
    obtain ⟨line₁, r₁, hread₁, h⟩ := askClient_authenticated h
    obtain ⟨clientFirst, first, hfirst, hcheck, h⟩ := startSCRAM_authenticated h
    obtain ⟨serverNonce, salt, line, r', hnonce, hsalt, hread, h⟩ := challengeSCRAM_authenticated h
    obtain ⟨clientFinal, signature, hfinal, hlast, husername⟩ := finishSCRAM_authenticated h
    refine ⟨clientFirst, clientFinal, serverNonce, salt, first, signature, ?_, hnonce, hsalt, hcheck,
      hlast, husername⟩
    simp [clientMessages, responses, hread₁, hread, Except.toOption, hfirst, hfinal]

end Exchange

section Soundness

variable {server : AuthServer} {clientFirst clientFinal serverNonce salt signature : Bytes}
  {first : ScramFirst} {t : Transcript}

theorem xorBytes_xorBytes {a b : Bytes} (h : a.length = b.length) : xorBytes (xorBytes a b) b = a := by
  induction a generalizing b with
  | nil => rfl
  | cons c a ih =>
    rcases b with _ | ⟨d, b⟩
    · cases h
    have hrest := ih (Nat.succ.inj h)
    simp only [xorBytes, List.zipWith_cons_cons, UInt8.xor_assoc, UInt8.xor_self, UInt8.xor_zero]
    exact congrArg (c :: ·) hrest

theorem length_xorBytes {a b : Bytes} (h : a.length = b.length) : (xorBytes a b).length = b.length := by
  simp [xorBytes, h]

-- A proof that is taken hides a key that the server cannot tell from the key of
-- the client.
theorem correctProof_of_proofOK {crypto : Crypto} {password bare serverFirst withoutProof proof : Bytes}
    (h : proofOK crypto (newSCRAMSHA256 crypto password salt iterations).storedKey proof
      (clientProof crypto (newSCRAMSHA256 crypto password salt iterations).storedKey bare serverFirst
        withoutProof) = true) :
    CorrectProof crypto password salt (scramAuthMessage bare serverFirst withoutProof) proof := by
  rw [proofOK, Bool.and_eq_true, decide_eq_true_eq, decide_eq_true_eq] at h
  obtain ⟨hlength, hkey⟩ := h
  exact ⟨_, hkey, length_xorBytes hlength, (xorBytes_xorBytes hlength).symm⟩

theorem authzid_of_checkAuthzid {username authz : Bytes} (h : checkAuthzid server username authz = .ok ()) :
    ∀ authzid, authz = bytes "a=" ++ authzid → authzid = [] ∨ server.toLower authzid = username := by
  rintro authzid rfl
  have htrim : trimPrefixOf (bytes "a=") (bytes "a=" ++ authzid) = authzid := by
    rw [trimPrefixOf, if_pos (by simp), List.drop_left]
  rw [checkAuthzid] at h
  split_ifs at h with hother
  by_contra hneither
  exact hother (not_or.mp hneither)

-- Everything else that is asked of an exchange follows from the checks.
theorem authenticates_of_checks (hfirst : checkFirst server clientFirst = .ok first)
    (hfinal : checkFinal server first serverNonce salt clientFinal = .ok signature)
    (ht : t.Of clientFirst clientFinal) (hbinding : t.binding = encodeToString t.gs2Header) :
    t.Authenticates server serverNonce salt first.username := by
  obtain ⟨msg, flag, authz, hmsg, hsplit, husername, hnonce, hauthz⟩ := checkFirst_ok hfirst
  obtain ⟨final, password, proofAt, hparse, hsame, hpassword, hcut, hok⟩ := checkFinal_ok hfinal
  obtain ⟨rfl, rfl, hbare⟩ : t.flag = flag ∧ t.authz = authz ∧ t.bare = first.bare := by
    simpa using (splitGS2_of ht).symm.trans hsplit
  obtain ⟨parts, hparts, rfl⟩ := Option.map_eq_some_iff.mp hmsg
  have hname : parts.lookup 110 = some t.name := by
    rw [lookup_parseAttributes hparts, getLast?_attributeValues_first ht ht.name]
  have hvalue : parts.lookup 114 = some t.nonce := by
    rw [lookup_parseAttributes hparts, getLast?_attributeValues_first ht ht.nonce]
  have hclient : first.nonce = t.nonce := by
    rw [hnonce, hvalue, Option.getD_some]
  obtain ⟨hlast, proof, hproof, hdecoded⟩ := parseClientFinalMessage_some hparse
  rw [attributeValues_final ht, if_neg (by decide), List.append_nil, ht.finalNonce,
    List.getLast?_singleton, Option.some.injEq] at hlast
  rw [attributeValues_final ht, if_pos rfl, List.getLast?_append, List.getLast?_singleton,
    Option.some_or, Option.some.injEq] at hproof
  rw [lastIndex_of ht, Option.some.injEq] at hcut
  rw [← hcut, take_final ht, ← hbare, hclient] at hok
  refine ⟨?_, authzid_of_checkAuthzid hauthz, ?_, hbinding, password, final.clientProof, hpassword,
    hproof ▸ hdecoded, correctProof_of_proofOK hok⟩
  · rw [husername, hname, Option.getD_some]
  · rw [hlast, hsame, hclient]

end Soundness

section Session

variable {World ρ : Type} {server : Server World ρ} {auth : AuthServer} {env : Env World} {scram : ScramEnv}
  {s : Session} {r : Reader UInt8} {arg : Bytes}

theorem handleAUTH_cases :
    (handleAUTH server env s r arg).session = s ∨ handleAUTH server env s r arg = runExchange env s := by
  simp only [handleAUTH]
  split_ifs
  all_goals first | exact .inr rfl | exact .inl rfl

theorem handleAUTH_authenticated (hbefore : s.isAuth = false)
    (h : (handleAUTH server env s r arg).session.isAuth = true) :
    ∃ username reply, env.exchange.1 = .authenticated username reply ∧
      (handleAUTH server env s r arg).session.username = username := by
  rcases @handleAUTH_cases _ _ server env s r arg with hsame | hrun
  · rw [hsame, hbefore] at h
    cases h
  rw [hrun] at h ⊢
  obtain ⟨world, written, timedOut, handshake, ⟨result, r⟩, room, reads⟩ := env
  cases result with
  | authenticated username reply => exact ⟨username, reply, rfl, rfl⟩
  | refused | aborted => exact absurd (hbefore.symm.trans h) Bool.false_ne_true

-- The value of the channel binding is the one thing that no check looks at, and
-- messages that repeat an attribute are read in their own way.
theorem authenticated_sound_iff
    (hexchange : env.exchange.1 = (handleAuthSCRAMSHA256 auth scram (initialResponse arg) r).result)
    (hbefore : s.isAuth = false) (h : (handleAUTH server env s r arg).session.isAuth = true) :
    ∃ clientFirst clientFinal serverNonce salt,
      clientMessages (initialResponse arg) r = some (clientFirst, clientFinal) ∧
      scram.serverNonce = some serverNonce ∧ scram.salt = some salt ∧
      ((∃ t : Transcript, t.Of clientFirst clientFinal ∧ t.Authenticates auth serverNonce salt
          (handleAUTH server env s r arg).session.username) ↔
        ∃ t : Transcript, t.Of clientFirst clientFinal ∧ t.binding = encodeToString t.gs2Header) := by
  obtain ⟨username, reply, hresult, husername⟩ := handleAUTH_authenticated hbefore h
  obtain ⟨clientFirst, clientFinal, serverNonce, salt, first, signature, hmessages, hnonce, hsalt, hfirst,
    hfinal, rfl⟩ := handleAuthSCRAMSHA256_authenticated (hexchange.symm.trans hresult)
  refine ⟨clientFirst, clientFinal, serverNonce, salt, hmessages, hnonce, hsalt, ?_⟩
  rw [husername]
  constructor
  · rintro ⟨t, ht, hsound⟩
    exact ⟨t, ht, hsound.binding⟩
  · rintro ⟨t, ht, hbinding⟩
    exact ⟨t, ht, authenticates_of_checks hfirst hfinal ht hbinding⟩

end Session

def shortCrypto : Crypto where
  hmac key text := (key.take 4 ++ text.reverse ++ List.replicate 8 0).take 8
  sha256 := id
  hi password _ _ := password

def annAuth : AuthServer := ⟨shortCrypto, id, fun _ => false, fun _ => some (bytes "pw")⟩

def annScram : ScramEnv := ⟨true, some (bytes "y"), some (bytes "s"), true⟩

def annFirst : Bytes := bytes "n,,n=ann,r=x"

variable (binding : Bytes)

def annWithoutProof : Bytes := bytes "c=" ++ binding ++ bytes ",r=xy"

def annProof : Bytes :=
  let clientKey := shortCrypto.hmac (bytes "pw") (bytes "Client Key")
  encodeToString (xorBytes clientKey (clientProof shortCrypto clientKey (bytes "n=ann,r=x")
    (buildServerFirstMessage (bytes "xy") (bytes "s") iterations) (annWithoutProof binding)))

def annFinal : Bytes := annWithoutProof binding ++ bytes ",p=" ++ annProof binding

def annArg : Bytes := bytes "SCRAM-SHA-256 " ++ encodeToString annFirst

def annReader : Reader UInt8 :=
  ⟨256, [], [encodeToString (annFinal binding) ++ bytes "\r\n"], 0⟩

def annExchange : Exchanged :=
  handleAuthSCRAMSHA256 annAuth annScram (initialResponse annArg) (annReader binding)

def annTurn : Turn Unit :=
  handleAUTH { plainServer with config := { plainServer.config with scramAvailable := true } }
    ⟨(), true, false, none, ((annExchange binding).result, (annExchange binding).reader), fun _ => 512, 100⟩
    { newSession [] true with state := .greeted } (annReader binding) annArg

-- The channel was said to be one that the client does not bind to, and at the
-- end it says that the server could not have.
theorem authenticated_fails_other_binding :
    (annTurn (bytes "eSws")).session.isAuth = true ∧
      clientMessages (initialResponse annArg) (annReader (bytes "eSws")) =
        some (annFirst, annFinal (bytes "eSws")) ∧
      ¬ ∃ t : Transcript, t.Of annFirst (annFinal (bytes "eSws")) ∧
        t.Authenticates annAuth (bytes "y") (bytes "s") (annTurn (bytes "eSws")).session.username := by
  refine ⟨by decide +kernel, by decide +kernel, ?_⟩
  rintro ⟨t, ht, hsound⟩
  have hbinding : attributeValues 99 (annFinal (bytes "eSws")) = [bytes "eSws"] := by decide +kernel
  rw [attributeValues_final ht, ht.binding, if_neg (by decide), List.append_nil,
    List.singleton_inj] at hbinding
  have hsplit : splitGS2 annFirst = some (bytes "n", [], bytes "n=ann,r=x") := by decide
  obtain ⟨hflag, hauthz, -⟩ : t.flag = bytes "n" ∧ t.authz = [] ∧ t.bare = bytes "n=ann,r=x" := by
    simpa using (splitGS2_of ht).symm.trans hsplit
  have hheader := hsound.binding
  rw [hbinding, Transcript.gs2Header, hflag, hauthz] at hheader
  revert hheader
  decide

theorem authenticated_sound_ann :
    clientMessages (initialResponse annArg) (annReader (bytes "biws")) =
        some (annFirst, annFinal (bytes "biws")) ∧
      ∃ t : Transcript, t.Of annFirst (annFinal (bytes "biws")) ∧
        t.Authenticates annAuth (bytes "y") (bytes "s") (annTurn (bytes "biws")).session.username := by
  have hmessages : clientMessages (initialResponse annArg) (annReader (bytes "biws")) =
      some (annFirst, annFinal (bytes "biws")) := by decide +kernel
  have hauth : (annTurn (bytes "biws")).session.isAuth = true := by decide +kernel
  refine ⟨hmessages, ?_⟩
  obtain ⟨clientFirst, clientFinal, serverNonce, salt, hsent, hnonce, hsalt, hiff⟩ :=
    @authenticated_sound_iff _ _ _ annAuth _ annScram _ _ _ rfl rfl hauth
  cases hmessages.symm.trans hsent
  cases hnonce
  cases hsalt
  exact hiff.mpr ⟨⟨bytes "n", [], bytes "n=ann,r=x", bytes "ann", bytes "x", annWithoutProof (bytes "biws"),
    bytes "biws", bytes "xy", annProof (bytes "biws")⟩, ⟨by decide, by decide, by decide, by decide, by decide,
    rfl, by decide +kernel, by decide, by decide⟩, by decide⟩

end UMail.Smtp
