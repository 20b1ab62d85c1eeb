import Asli.Net.Frames
import Asli.Net.SessionSteps
import Asli.Relay.Decoders
import Asli.Relay.Server

/-!
# AuthAgreement — the client's answer to a challenge is what the relay verifies

Two programs build the signed bytes and spell them on the wire: `asli-crypto/src/auth.rs` and
`asli-net` on one side, `server/src/auth.ts` and `validate.ts` on the other.  What the session
answers to the relay's challenge passes the relay's parser, its validator and its verifier; and a
frame the relay lets in carries the room, key, nonces and time that were signed.
-/

namespace Asli
namespace Relay

open Logic Crypto

/-- What `loadConfig` promises of the limits a challenge announces, and of the cap of its answer. -/
structure Loaded (c : Config) : Prop where
  maxFrameBytes : c.maxFrameBytes ≤ 64 * 2 ^ 20
  handshakeFrameBytes : 512 ≤ c.handshakeFrameBytes
  maxContentBytes : c.maxContentBytes ≤ 32 * 2 ^ 20
  retainMaxBytes : c.retainMaxBytes ≤ 16 * 2 ^ 20
  msgsPerSec : c.msgsPerSec ≤ 10000
  roomBytesPerDay : c.roomBytesPerDay ≤ 64 * 1024 * 2 ^ 20

/-- The limits of a relay whose environment sets none. -/
def defaults : Config where
  maxFrameBytes := 2 ^ 20
  handshakeFrameBytes := 4 * 2 ^ 10
  maxContentBytes := 700 * 2 ^ 10
  retainMaxBytes := 64 * 2 ^ 10
  retainGlobalBudgetBytes := 256 * 2 ^ 20
  retainTtlMs := 24 * 60 * 60 * 1000
  maxRooms := 100000
  msgBurst := 10
  msgsPerSec := 2
  byteBurst := 2 * 2 ^ 20
  bytesPerSec := 256 * 2 ^ 10
  roomBytesPerDay := 50 * 2 ^ 20
  transferMsgBurst := 128
  transferMsgsPerSec := 64
  transferByteBurst := 16 * 2 ^ 20
  transferBytesPerSec := 8 * 2 ^ 20
  roomTransferBytesPerDay := 4096 * 2 ^ 20
  globalTransferBytesPerDay := 32 * 1024 * 2 ^ 20
  maxConnsPerIp := 20
  newConnBurst := 10
  newConnRefillMs := 5000
  maxConnsPerRoom := 16
  maxConnsGlobal := 10000
  backpressureSoftBytes := 2 ^ 20
  backpressureHardBytes := 8 * 2 ^ 20
  backpressureGraceMs := 15000
  dedupWindow := 256
  presenceDebounceMs := 1500

theorem loaded_defaults : Loaded defaults where
  maxFrameBytes := by decide
  handshakeFrameBytes := by decide
  maxContentBytes := by decide
  retainMaxBytes := by decide
  msgsPerSec := by decide
  roomBytesPerDay := by decide

/-! ## Signatures -/

/-- One call of the signing function, with whatever key. -/
structure EdCall where
  seed : Key
  message : Bytes
  deriving DecidableEq

/-- Ideal signatures: a signature that was made verifies; one that verifies was made with that key
over that message; and no signature is that of two calls. -/
structure IdealEd25519 (P : Primitives) (V : Verifier) (calls : List EdCall) : Prop where
  encodes : ∀ c ∈ calls, V.publicKeyFromRaw (P.edPublic c.seed) = true
  verifies : ∀ c ∈ calls,
    V.cryptoVerify (P.edPublic c.seed) c.message (P.edSign c.seed c.message) = true
  made : ∀ key message sig, V.cryptoVerify key message sig = true →
    ∃ c ∈ calls, P.edPublic c.seed = key ∧ c.message = message ∧ P.edSign c.seed c.message = sig
  binding : ∀ c ∈ calls, ∀ c' ∈ calls,
    P.edSign c.seed c.message = P.edSign c'.seed c'.message →
      P.edPublic c.seed = P.edPublic c'.seed ∧ c.message = c'.message

/-- The bytes an account signs for a challenge. -/
def signedInput (P : Primitives) (i : Identity) (nonceS : ServerNonce) (nonceC : ByteArr 16)
    (clientTimeMs : UInt64) : Bytes :=
  Crypto.buildSigInput 1 (i.roomIdBytes P) (i.publicKey P) nonceS nonceC clientTimeMs

/-- The call that signs them. -/
def authCall (P : Primitives) (i : Identity) (nonceS : ServerNonce) (nonceC : ByteArr 16)
    (clientTimeMs : UInt64) : EdCall :=
  ⟨i.signSeed P, signedInput P i nonceS nonceC clientTimeMs⟩

/-- The answer to a challenge. -/
def answer (P : Primitives) (i : Identity) (nonceS : ServerNonce) (nonceC : ByteArr 16)
    (clientTimeMs : UInt64) : Net.Auth where
  v := Net.PROTOCOL_VERSION
  room := i.roomId P
  pubKey := (i.publicKey P).1
  nonceC := nonceC.1
  clientTimeMs := clientTimeMs
  sig := (signAuth P i nonceS nonceC clientTimeMs).1

/-- Both sides build the same bytes. -/
theorem buildSigInput_eq (version : UInt8) (room : RoomId) (publicKey : PubKey)
    (nonceS : ServerNonce) (nonceC : ByteArr 16) (clientTimeMs : UInt64) :
    Relay.buildSigInput version room publicKey nonceS nonceC clientTimeMs.toNat =
      Crypto.buildSigInput version room publicKey nonceS nonceC clientTimeMs := rfl

/-- The parts stand at fixed places, so the bytes tell them apart. -/
theorem buildSigInput_inj {version version' : UInt8} {room room' : RoomId} {key key' : PubKey}
    {nonceS nonceS' : ServerNonce} {nonceC nonceC' : ByteArr 16} {time time' : Nat}
    (htime : time < 2 ^ 64) (htime' : time' < 2 ^ 64)
    (h : Relay.buildSigInput version room key nonceS nonceC time =
      Relay.buildSigInput version' room' key' nonceS' nonceC' time') :
    version = version' ∧ room = room' ∧ key = key' ∧ nonceS = nonceS' ∧ nonceC = nonceC' ∧
      time = time' := by
  unfold Relay.buildSigInput at h
  have hroom : room.1.length = room'.1.length := room.2.trans room'.2.symm
  have hkey : key.1.length = key'.1.length := key.2.trans key'.2.symm
  have hnonceS : nonceS.1.length = nonceS'.1.length := nonceS.2.trans nonceS'.2.symm
  have hnonceC : nonceC.1.length = nonceC'.1.length := nonceC.2.trans nonceC'.2.symm
  -- from the last part to the first
  rcases List.append_inj' h (by simp) with ⟨h, hlast⟩
  rcases List.append_inj' h hnonceC with ⟨h, hc⟩
  rcases List.append_inj' h rfl with ⟨h, -⟩
  rcases List.append_inj' h hnonceS with ⟨h, hs⟩
  rcases List.append_inj' h rfl with ⟨h, -⟩
  rcases List.append_inj' h hkey with ⟨h, hk⟩
  rcases List.append_inj' h rfl with ⟨h, -⟩
  rcases List.append_inj' h hroom with ⟨h, hr⟩
  rcases List.append_inj' h rfl with ⟨h, -⟩
  rcases List.append_inj' h rfl with ⟨-, hv⟩
  exact ⟨List.head_eq_of_cons_eq hv, Subtype.ext hr, Subtype.ext hk, Subtype.ext hs, Subtype.ext hc,
    beBytes_inj (by omega) (by omega) hlast⟩

/-! ## The challenge, read by the client -/

section Challenge

variable {host : Host} {nonceS : ServerNonce} {serverTimeMs : Int}

/-- The text of the challenge the relay sends. -/
def challengeText (host : Host) (nonceS : ServerNonce) (serverTimeMs : Int) : String :=
  (Json.obj (challenge host nonceS serverTimeMs)).text

/-- The challenge as the client holds it. -/
def challengeRead (host : Host) (nonceS : ServerNonce) (serverTimeMs : Int) : Net.Challenge where
  v := 1
  suite := SUITE
  enc := ENCODING
  nonceS := nonceS.1
  serverTimeMs := UInt64.ofNat serverTimeMs.toNat
  limits :=
    { maxFrameBytes := UInt64.ofNat host.config.maxFrameBytes
      maxContentBytes := UInt64.ofNat host.config.maxContentBytes
      retainMaxBytes := UInt64.ofNat host.config.retainMaxBytes
      msgsPerSec := UInt64.ofNat host.config.msgsPerSec
      roomBytesPerDay := UInt64.ofNat host.config.roomBytesPerDay }

theorem jsonInt_eq (h : 0 ≤ serverTimeMs) :
    Turn.jsonInt serverTimeMs = Json.ofNat serverTimeMs.toNat := by
  unfold Turn.jsonInt Json.ofNat
  rw [decide_eq_false (by omega : ¬ serverTimeMs < 0)]
  congr 2
  omega

theorem u64_ofNat {n : Nat} (h : n < 2 ^ 64) : Net.Message.u64 (UInt64.ofNat n) = Json.ofNat n := by
  rw [Net.Message.u64, UInt64.toNat_ofNat_of_lt' h]

/-- The relay prints the members in an order of its own; the client reads them by name. -/
theorem challenge_reads (hloaded : Loaded host.config) (htime : 0 ≤ serverTimeMs)
    (htime' : serverTimeMs < 2 ^ 53) :
    Net.Message.parse Net.serdeJson (challengeText host nonceS serverTimeMs) =
      .ok (.challenge (challengeRead host nonceS serverTimeMs)) := by
  have hframe := hloaded.maxFrameBytes
  have hcontent := hloaded.maxContentBytes
  have hretain := hloaded.retainMaxBytes
  have hmsgs := hloaded.msgsPerSec
  have hroom := hloaded.roomBytesPerDay
  have hplain : (Json.obj (challenge host nonceS serverTimeMs)).Plain Net.RECURSION_LIMIT := by
    rw [challenge, jsonInt_eq htime]
    simp only [Json.Plain, Json.PlainMembers, Json.ofNat, Json.ofBytes, Net.RECURSION_LIMIT,
      true_and, and_true]
    omega
  have hread := Net.serdeJson_text hplain
  have hmessage : Net.Message.ofJson? (.obj (challenge host nonceS serverTimeMs)) =
      some (.challenge (challengeRead host nonceS serverTimeMs)) := by
    have htagged : Net.Message.tagged? (.obj (challenge host nonceS serverTimeMs)) =
        some ("challenge", .obj
          (Net.Message.challenge (challengeRead host nonceS serverTimeMs)).members) := by
      rw [challenge, jsonInt_eq htime]
      simp only [Net.Message.members, challengeRead, Net.Message.limitsMembers,
        u64_ofNat (by omega : host.config.maxFrameBytes < 2 ^ 64),
        u64_ofNat (by omega : host.config.maxContentBytes < 2 ^ 64),
        u64_ofNat (by omega : host.config.retainMaxBytes < 2 ^ 64),
        u64_ofNat (by omega : host.config.msgsPerSec < 2 ^ 64),
        u64_ofNat (by omega : host.config.roomBytesPerDay < 2 ^ 64),
        u64_ofNat (by omega : serverTimeMs.toNat < 2 ^ 64)]
      simp [Net.Message.tagged?, Net.Message.u8]
    unfold Net.Message.ofJson?
    rw [htagged]
    exact Net.Message.ofTagged?_members (.challenge (challengeRead host nonceS serverTimeMs))
  unfold Net.Message.parse challengeText
  rw [hread]
  simp only [hmessage]

/-- The session answers with the account's signature, over the nonce it draws or the one pinned. -/
theorem session_answers {P : Primitives} (hloaded : Loaded host.config) (htime : 0 ≤ serverTimeMs)
    (htime' : serverTimeMs < 2 ^ 53) {s : Net.Session} (hsent : s.phase = .helloSent)
    {nonceC : ByteArr 16} {clientTimeMs nowMs : UInt64} {draws : Net.FrameDraws}
    (hinputs : s.pinnedAuth = some (nonceC, clientTimeMs) ∨
      s.pinnedAuth = none ∧ draws.nonceC = some nonceC ∧ nowMs = clientTimeMs) :
    ∃ skew : List Net.Action, (∀ a ∈ skew, ∃ ms, a = .clockSkew ms) ∧
      (s.handleFrame P Net.serdeJson (challengeText host nonceS serverTimeMs) nowMs draws).2 =
        .ok (skew ++ [.send (.auth (answer P s.identity nonceS nonceC clientTimeMs))]) := by
  have hfixed : Net.Session.fixed "nonce_s" 32 nonceS.1 = .ok nonceS := by
    unfold Net.Session.fixed
    rw [ByteArr.ofBytes?_val]
  unfold Net.Session.handleFrame
  rw [challenge_reads hloaded htime htime']
  simp only [Net.Message.version, challengeRead, Net.PROTOCOL_VERSION, ne_eq, not_true_eq_false,
    if_false, Net.Session.handleMessage, Net.Session.onChallenge, hsent, hfixed]
  rw [if_neg (by decide : ¬ SUITE ≠ Net.SUITE), if_neg (by decide : ¬ ENCODING ≠ "json")]
  rcases hinputs with hpinned | ⟨hnone, hdraw, rfl⟩
  · simp only [hpinned, Net.Session.orFail_ok]
    refine ⟨_, ?_, rfl⟩
    intro a ha
    split at ha
    · exact ⟨_, List.mem_singleton.1 ha⟩
    · cases ha
  · simp only [hnone, hdraw, Crypto.drawn_some, Except.map, Net.Session.orFail_ok]
    refine ⟨_, ?_, rfl⟩
    intro a ha
    split at ha
    · exact ⟨_, List.mem_singleton.1 ha⟩
    · cases ha

end Challenge

/-! ## The answer, read by the relay -/

section Answer

variable {P : Primitives} {i : Identity} {nonceS : ServerNonce} {nonceC : ByteArr 16}
  {clientTimeMs : UInt64}

theorem roomId_ascii : Ascii (i.roomId P) :=
  base32_ascii _

/-- `auth` is a little over 300 bytes. -/
theorem answer_size (htime : clientTimeMs.toNat ≤ 2 ^ 53 - 1) :
    (Net.Message.auth (answer P i nonceS nonceC clientTimeMs)).toFrame.utf8ByteSize ≤ 512 := by
  have hversion : (Json.numberText { whole := (1 : UInt8).toNat }).utf8ByteSize ≤ 1 :=
    number_size (by decide) (by decide)
  have htimeSize : (Json.numberText { whole := clientTimeMs.toNat }).utf8ByteSize ≤ 16 :=
    number_size (by decide) (by omega)
  have hroom : (Json.quote (i.roomId P)).utf8ByteSize = 28 := by
    rw [quote_size roomId_ascii, Identity.roomId_length]
  have hkey : (Json.quote (Base64.encode (i.publicKey P).1)).utf8ByteSize = 46 := by
    rw [quote_size (base64_ascii _), base64_length, (i.publicKey P).2]
    rfl
  have hnonce : (Json.quote (Base64.encode nonceC.1)).utf8ByteSize = 26 := by
    rw [quote_size (base64_ascii _), base64_length, nonceC.2]
  have hsig : (Json.quote (Base64.encode (signAuth P i nonceS nonceC clientTimeMs).1)).utf8ByteSize
      = 90 := by
    rw [quote_size (base64_ascii _), base64_length, (signAuth P i nonceS nonceC clientTimeMs).2]
    rfl
  have hkeys : (Json.quote "type").utf8ByteSize = 6 ∧ (Json.quote "auth").utf8ByteSize = 6 ∧
      (Json.quote "v").utf8ByteSize = 3 ∧ (Json.quote "room").utf8ByteSize = 6 ∧
      (Json.quote "pub_key").utf8ByteSize = 9 ∧ (Json.quote "nonce_c").utf8ByteSize = 9 ∧
      (Json.quote "client_time_ms").utf8ByteSize = 16 ∧ (Json.quote "sig").utf8ByteSize = 5 := by
    decide +kernel
  rcases hkeys with ⟨ktype, kauth, kv, kroom, kpub, knonce, ktime, ksig⟩
  have hmarks : "\x7b".utf8ByteSize = 1 ∧ "\x7d".utf8ByteSize = 1 ∧ ":".utf8ByteSize = 1 := by
    decide +kernel
  simp only [Net.Message.toFrame, Net.Message.toJson, Net.Message.members, Net.Message.kind,
    Json.text, Json.memberTexts, String.utf8ByteSize_append, intercalate_size, List.map_cons,
    List.map_nil, List.sum_cons, List.sum_nil, hmarks, answer, Net.Message.u8, Net.Message.u64,
    Json.ofNat, Json.ofBytes, Net.PROTOCOL_VERSION]
  omega

/-- The relay's parser takes the answer, as an auth frame. -/
theorem answer_parses (htime : clientTimeMs.toNat ≤ 2 ^ 53 - 1) {maxFrameBytes : Nat}
    (hcap : 512 ≤ maxFrameBytes) :
    parseFrame jsonParse (Net.Message.auth (answer P i nonceS nonceC clientTimeMs)).toFrame
        maxFrameBytes =
      .ok ⟨.auth, ("type", .str "auth") ::
        (Net.Message.auth (answer P i nonceS nonceC clientTimeMs)).members⟩ := by
  have hsize : (Net.Message.auth (answer P i nonceS nonceC clientTimeMs)).toFrame.utf8ByteSize ≤
      512 := answer_size htime
  have hread := jsonParse_text
    (Net.Message.toJson_plain (.auth (answer P i nonceS nonceC clientTimeMs)))
  have hversion : asInteger (field (("type", .str "auth") ::
      (Net.Message.auth (answer P i nonceS nonceC clientTimeMs)).members) "v") = some 1 :=
    asInteger_ofNat (n := 1) (by decide)
  have htype : asString (field (("type", .str "auth") ::
      (Net.Message.auth (answer P i nonceS nonceC clientTimeMs)).members) "type") = some "auth" :=
    rfl
  have hkind : FrameType.ofText? "auth" = some .auth := by decide
  have hallowed : ((("type", .str "auth") ::
      (Net.Message.auth (answer P i nonceS nonceC clientTimeMs)).members).all fun m =>
        FrameType.auth.allowed.contains m.1) = true := rfl
  unfold parseFrame
  rw [if_neg (by omega), Net.Message.toFrame, hread]
  simp only [Net.Message.toJson, Net.Message.kind]
  rw [if_neg (not_not.2 hversion), htype]
  simp only [hkind, hallowed, if_true]

/-- What the relay reads out of the answer. -/
def answerFields (P : Primitives) (i : Identity) (nonceS : ServerNonce) (nonceC : ByteArr 16)
    (clientTimeMs : UInt64) : AuthFields where
  roomText := i.roomId P
  pubKey := i.publicKey P
  nonceC := nonceC
  clientTimeMs := clientTimeMs.toNat
  sig := signAuth P i nonceS nonceC clientTimeMs

/-- The relay's validator reads the fields the client wrote. -/
theorem answer_validates (htime : clientTimeMs.toNat ≤ 2 ^ 53 - 1) :
    validateAuth ⟨.auth, ("type", .str "auth") ::
        (Net.Message.auth (answer P i nonceS nonceC clientTimeMs)).members⟩ =
      some (answerFields P i nonceS nonceC clientTimeMs) := by
  have hlength : utf16Length (i.roomId P) = ROOM_CHARS := by
    rw [utf16Length_ascii roomId_ascii, Identity.roomId_length, ROOM_CHARS]
  have hroom : roomText ⟨.auth, ("type", .str "auth") ::
      (Net.Message.auth (answer P i nonceS nonceC clientTimeMs)).members⟩ =
        some (i.roomId P) :=
    if_neg (not_not.2 hlength)
  have hkey : decodeExact (Envelope.get ⟨.auth, ("type", .str "auth") ::
      (Net.Message.auth (answer P i nonceS nonceC clientTimeMs)).members⟩ "pub_key") 32 =
        some (i.publicKey P) :=
    decodeExact_ofBytes _ (by decide) (by decide)
  have hnonce : decodeExact (Envelope.get ⟨.auth, ("type", .str "auth") ::
      (Net.Message.auth (answer P i nonceS nonceC clientTimeMs)).members⟩ "nonce_c") 16 =
        some nonceC :=
    decodeExact_ofBytes _ (by decide) (by decide)
  have hsig : decodeExact (Envelope.get ⟨.auth, ("type", .str "auth") ::
      (Net.Message.auth (answer P i nonceS nonceC clientTimeMs)).members⟩ "sig") 64 =
        some (signAuth P i nonceS nonceC clientTimeMs) :=
    decodeExact_ofBytes _ (by decide) (by decide)
  have hms : safeNat (Envelope.get ⟨.auth, ("type", .str "auth") ::
      (Net.Message.auth (answer P i nonceS nonceC clientTimeMs)).members⟩ "client_time_ms") =
        some clientTimeMs.toNat :=
    safeNat_ofNat htime
  unfold validateAuth
  rw [hroom, hkey, hnonce, hsig, hms]
  rfl

/-- The relay verifies the signature over the bytes the client signed. -/
theorem answer_verifies {V : Verifier} {calls : List EdCall} (hideal : IdealEd25519 P V calls)
    (hcall : authCall P i nonceS nonceC clientTimeMs ∈ calls) :
    verifyAuth P V (answerFields P i nonceS nonceC clientTimeMs) (some nonceS) false =
      ⟨.ok (roomKey (i.roomIdBytes P).1, i.roomIdBytes P), none,
        some ⟨i.publicKey P, signedInput P i nonceS nonceC clientTimeMs,
          signAuth P i nonceS nonceC clientTimeMs⟩⟩ := by
  have hroom : decodeCrockford (i.roomId P) 16 = some (i.roomIdBytes P) :=
    decodeCrockford_encode (i.roomIdBytes P) (by decide)
  have hvalid : V.publicKeyFromRaw (i.publicKey P) = true := hideal.encodes _ hcall
  have hbound : Relay.roomIdForPublicKey P (i.publicKey P) = i.roomIdBytes P := rfl
  have hverify : V.cryptoVerify (i.publicKey P) (signedInput P i nonceS nonceC clientTimeMs)
      (signAuth P i nonceS nonceC clientTimeMs) = true := hideal.verifies _ hcall
  have hinput : Relay.buildSigInput 1 (i.roomIdBytes P) (i.publicKey P) nonceS nonceC
      clientTimeMs.toNat = signedInput P i nonceS nonceC clientTimeMs := rfl
  unfold verifyAuth
  simp only [answerFields, hroom, hvalid, hbound, hinput, hverify, Bool.not_true,
    Bool.false_eq_true, if_false, ne_eq, not_true_eq_false]

end Answer

/-! ## Agreement -/

/-- The session's answer to a challenge, and the relay's verdict on it: both sides took the same 121
bytes. -/
structure Agreed (P : Primitives) (V : Verifier) (host : Host) (s : Net.Session)
    (nonceS : ServerNonce) (serverTimeMs : Int) (nonceC : ByteArr 16)
    (clientTimeMs nowMs : UInt64) (draws : Net.FrameDraws) : Prop where
  answered : ∃ skew : List Net.Action, (∀ a ∈ skew, ∃ ms, a = .clockSkew ms) ∧
    (s.handleFrame P Net.serdeJson (challengeText host nonceS serverTimeMs) nowMs draws).2 =
      .ok (skew ++ [.send (.auth (answer P s.identity nonceS nonceC clientTimeMs))])
  accepted : ∃ message fields,
    parseFrame jsonParse
      (Net.Message.auth (answer P s.identity nonceS nonceC clientTimeMs)).toFrame
      host.config.handshakeFrameBytes = .ok message ∧
    message.type = .auth ∧ validateAuth message = some fields ∧
    verifyAuth P V fields (some nonceS) false =
      ⟨.ok (roomKey (s.identity.roomIdBytes P).1, s.identity.roomIdBytes P), none,
        some ⟨s.identity.publicKey P, signedInput P s.identity nonceS nonceC clientTimeMs,
          signAuth P s.identity nonceS nonceC clientTimeMs⟩⟩
  signed : signAuth P s.identity nonceS nonceC clientTimeMs =
    P.edSign (s.identity.signSeed P) (signedInput P s.identity nonceS nonceC clientTimeMs)
  length : (signedInput P s.identity nonceS nonceC clientTimeMs).length = 121

/-- A frame that is let in was signed: with its key, over its room, its nonces, the one issued and
its own, and its time.  And a frame that carries a signature made for a challenge is let in only
with everything that was signed. -/
def OnlySigned (P : Primitives) (V : Verifier) (calls : List EdCall) : Prop :=
  ∀ message fields issued timedOut roomId roomIdBytes, validateAuth message = some fields →
    (verifyAuth P V fields issued timedOut).result = .ok (roomId, roomIdBytes) →
    (∃ c ∈ calls, ∃ nonceS, issued = some nonceS ∧ P.edPublic c.seed = fields.pubKey ∧
      c.message = buildSigInput 1 roomIdBytes fields.pubKey nonceS fields.nonceC
        fields.clientTimeMs ∧
      P.edSign c.seed c.message = fields.sig) ∧
    ∀ i nonceS nonceC clientTimeMs, authCall P i nonceS nonceC clientTimeMs ∈ calls →
      fields.sig = signAuth P i nonceS nonceC clientTimeMs →
      decodeCrockford fields.roomText 16 = some (i.roomIdBytes P) ∧
        fields.pubKey = i.publicKey P ∧ issued = some nonceS ∧ fields.nonceC = nonceC ∧
        fields.clientTimeMs = clientTimeMs.toNat

theorem validateAuth_time {message : Envelope} {fields : AuthFields}
    (h : validateAuth message = some fields) : fields.clientTimeMs < 2 ^ 64 := by
  unfold validateAuth at h
  simp only [Option.bind_eq_bind, Option.bind_eq_some_iff] at h
  rcases h with ⟨_, -, _, -, _, -, _, -, ms, hms, heq⟩
  cases heq
  unfold safeNat at hms
  split at hms
  · cases hms
  · split at hms
    · cases hms
    · cases hms
      simp only
      omega

theorem only_signed {P : Primitives} {V : Verifier} {calls : List EdCall}
    (hideal : IdealEd25519 P V calls) : OnlySigned P V calls := by
  intro message fields issued timedOut roomId roomIdBytes hfields hok
  rcases verifyAuth_ok hok with ⟨nonceS, hissued, -, hroom, -, -, hverify, -⟩
  rcases hideal.made _ _ _ hverify with ⟨c, hc, hkey, hmessage, hsig⟩
  refine ⟨⟨c, hc, nonceS, hissued, hkey, hmessage, hsig⟩, ?_⟩
  intro i nonceS' nonceC clientTimeMs hcall hcarried
  -- the signature is that of the call, so the call is this one
  have hsame : P.edSign c.seed c.message =
      P.edSign (authCall P i nonceS' nonceC clientTimeMs).seed
        (authCall P i nonceS' nonceC clientTimeMs).message := hsig.trans hcarried
  rcases hideal.binding c hc _ hcall hsame with ⟨-, hbytes⟩
  have hinput : buildSigInput 1 roomIdBytes fields.pubKey nonceS fields.nonceC
      fields.clientTimeMs =
      buildSigInput 1 (i.roomIdBytes P) (i.publicKey P) nonceS' nonceC clientTimeMs.toNat :=
    hmessage.symm.trans hbytes
  rcases buildSigInput_inj (validateAuth_time hfields) clientTimeMs.toNat_lt hinput with
    ⟨-, rfl, hpub, rfl, hnonce, htime⟩
  exact ⟨hroom, hpub, hissued, hnonce, htime⟩

/-- Client and relay agree on the handshake, for every account, every nonce and every time a double
holds; and the relay lets nothing else in. -/
theorem handshake_agreement {P : Primitives} {V : Verifier} {calls : List EdCall}
    (hideal : IdealEd25519 P V calls) {host : Host} (hloaded : Loaded host.config)
    {s : Net.Session} (hsent : s.phase = .helloSent) {nonceS : ServerNonce} {serverTimeMs : Int}
    (hserver : 0 ≤ serverTimeMs) (hserver' : serverTimeMs < 2 ^ 53) {nonceC : ByteArr 16}
    {clientTimeMs nowMs : UInt64} (htime : clientTimeMs.toNat ≤ 2 ^ 53 - 1)
    {draws : Net.FrameDraws}
    (hinputs : s.pinnedAuth = some (nonceC, clientTimeMs) ∨
      s.pinnedAuth = none ∧ draws.nonceC = some nonceC ∧ nowMs = clientTimeMs)
    (hcall : authCall P s.identity nonceS nonceC clientTimeMs ∈ calls) :
    Agreed P V host s nonceS serverTimeMs nonceC clientTimeMs nowMs draws ∧
      OnlySigned P V calls where
  left :=
    { answered := session_answers hloaded hserver hserver' hsent hinputs
      accepted := ⟨_, _, answer_parses htime hloaded.handshakeFrameBytes, rfl,
        answer_validates htime, answer_verifies hideal hcall⟩
      signed := rfl
      length := buildSigInput_length 1 _ _ _ _ clientTimeMs.toNat }
  right := only_signed hideal

/-! ### One handshake -/

namespace OneHandshake

def session : Net.Session :=
  ((Net.Session.new ⟨ByteArr.fill 32 7⟩ (ByteArr.fill 16 1) 0).helloFrame "").1

def primitives : Primitives where
  aeadEncrypt := fun _ _ _ _ => none
  aeadDecrypt := fun _ _ _ _ => none
  sha256 := fun _ => ByteArr.fill 32 0
  hkdfExtract := fun _ _ => ByteArr.fill 32 0
  hkdfExpand := fun _ _ => ByteArr.fill 32 0
  edPublic := fun _ => ByteArr.fill 32 3
  edSign := fun _ _ => ByteArr.fill 64 4
  edValid := fun _ => true
  edVerifyStrict := fun _ _ _ => false
  x25519Public := fun _ => ByteArr.fill 32 0
  x25519 := fun _ _ => ByteArr.fill 32 0

def nonceS : ServerNonce := ByteArr.fill 32 5
def nonceC : ByteArr 16 := ByteArr.fill 16 6

/-- The one signature that was made. -/
def call : EdCall :=
  authCall primitives session.identity nonceS nonceC 7

/-- It is good for that message under that key, and nothing else is. -/
def verifier : Verifier where
  publicKeyFromRaw := fun _ => true
  cryptoVerify := fun key message sig =>
    decide (key = ByteArr.fill 32 3 ∧ message = call.message ∧ sig = ByteArr.fill 64 4)

def host : Host where
  config := defaults
  primitives := primitives
  verifier := verifier
  json := jsonParse

theorem ideal : IdealEd25519 primitives verifier [call] where
  encodes := fun _ _ => rfl
  verifies := by
    intro c hc
    rw [List.mem_singleton.1 hc]
    have hgood : ByteArr.fill 32 3 = (ByteArr.fill 32 3 : PubKey) ∧ call.message = call.message ∧
        ByteArr.fill 64 4 = (ByteArr.fill 64 4 : Signature) := ⟨rfl, rfl, rfl⟩
    exact decide_eq_true hgood
  made := by
    intro key message sig h
    rcases of_decide_eq_true h with ⟨hkey, hmessage, hsig⟩
    exact ⟨call, List.mem_cons_self, hkey.symm, hmessage.symm, hsig.symm⟩
  binding := by
    intro c hc c' hc' _
    rw [List.mem_singleton.1 hc, List.mem_singleton.1 hc']
    exact ⟨rfl, rfl⟩

end OneHandshake

theorem handshake_agreement_once :
    Agreed OneHandshake.primitives OneHandshake.verifier OneHandshake.host OneHandshake.session
      OneHandshake.nonceS 0 OneHandshake.nonceC 7 7 ⟨some OneHandshake.nonceC, ⟨none, none⟩,
        ⟨none, none⟩⟩ ∧
      OnlySigned OneHandshake.primitives OneHandshake.verifier [OneHandshake.call] :=
  handshake_agreement OneHandshake.ideal loaded_defaults rfl (by decide) (by decide) (by decide)
    (by exact Or.inr ⟨rfl, rfl, rfl⟩) List.mem_cons_self

end Relay
end Asli
