import Asli.Relay.Validate

/-!
# Auth — the challenge response handshake, `server/src/auth.ts` and `base32.ts`

The relay stores no secret of a room.  It checks that the room id is the hash of the presented key,
and that the key signs a nonce the relay has just drawn.  `Verifier` is the Ed25519 of the platform;
SHA-256 is the one of `Primitives`.
-/

namespace Asli
namespace Relay

open Logic Crypto

/-! ## Crockford base32 -/

/-- `VALUES`: both cases, and I and L as 1, O as 0; U is absent. -/
def crockfordValue (c : Char) : Option Nat :=
  let upper := c.toUpper
  if upper = 'I' ∨ upper = 'L' then some 1
  else if upper = 'O' then some 0
  else "0123456789ABCDEFGHJKMNPQRSTVWXYZ".toList.idxOf? upper

/-- The accumulator of `decodeCrockford`; the bits that count are the low ones, so the sign of the
32-bit `buffer` does not matter. -/
structure CrockfordState where
  out : Bytes
  buffer : UInt32
  bits : Nat

/-- One character: five bits, and a byte once eight have gathered. -/
def crockfordStep (expectedBytes : Nat) (st : CrockfordState) (c : Char) : Option CrockfordState :=
  match crockfordValue c with
  | none => none
  | some value =>
      let buffer := (st.buffer <<< 5) ||| UInt32.ofNat value
      let bits := st.bits + 5
      if bits ≥ 8 then
        if st.out.length ≥ expectedBytes then none
        else
          some { out := st.out ++ [((buffer >>> UInt32.ofNat (bits - 8)) &&& 0xff).toUInt8],
                 buffer := buffer, bits := bits - 8 }
      else some { st with buffer := buffer, bits := bits }

def decodeCrockford (input : String) (expectedBytes : Nat) : Option (ByteArr expectedBytes) :=
  if input = "" then none
  else
    match input.toList.foldlM (crockfordStep expectedBytes)
        { out := [], buffer := 0, bits := 0 } with
    | none => none
    | some st =>
        -- left over bits must be the zero padding of the encoder
        if st.bits > 0 ∧ st.buffer &&& ((1 <<< UInt32.ofNat st.bits) - 1) ≠ 0 then none
        else ByteArr.ofBytes? expectedBytes st.out

/-! ## Verifying -/

/-- What the platform knows about Ed25519. -/
structure Verifier where
  /-- `createPublicKey` accepts the encoding. -/
  publicKeyFromRaw : PubKey → Bool
  /-- `cryptoVerify(null, input, key, sig)`. -/
  cryptoVerify : PubKey → Bytes → Signature → Bool

def LABEL_ROOM : Bytes := utf8 "asli/v1/room"
def LABEL_AUTH : Bytes := utf8 "asli/v1/auth"

inductive AuthFailCode where
  | malformedAuth
  | roomMismatch
  | staleNonce
  | badSignature
  | authTimeout
  | unsupportedVersion
  deriving DecidableEq

namespace AuthFailCode

def text : AuthFailCode → String
  | .malformedAuth => "MALFORMED_AUTH"
  | .roomMismatch => "ROOM_MISMATCH"
  | .staleNonce => "STALE_NONCE"
  | .badSignature => "BAD_SIGNATURE"
  | .authTimeout => "AUTH_TIMEOUT"
  | .unsupportedVersion => "UNSUPPORTED_VERSION"

/-- `AUTH_FAIL_CLOSE`. -/
def close : AuthFailCode → Nat
  | .unsupportedVersion => 4004
  | .badSignature => 4002
  | .roomMismatch => 4003
  | .malformedAuth => 4005
  | .staleNonce => 4005
  | .authTimeout => 4001

end AuthFailCode

/-- A nonce as the relay draws it. -/
abbrev ServerNonce := ByteArr 32

/-- The room id bytes that belong to a public key. -/
def roomIdForPublicKey (P : Primitives) (pubKey : PubKey) : RoomId :=
  ⟨(P.sha256 (LABEL_ROOM ++ pubKey.1)).1.take 16, by
    rw [List.length_take, (P.sha256 (LABEL_ROOM ++ pubKey.1)).2]
    rfl⟩

/-- The bytes a client signs; the lengths of the parts make them 121. -/
def buildSigInput (version : UInt8) (roomIdBytes : RoomId) (pubKey : PubKey) (nonceS : ServerNonce)
    (nonceC : ByteArr 16) (clientTimeMs : Nat) : Bytes :=
  LABEL_AUTH ++ [version] ++ [16] ++ roomIdBytes.1 ++ [32] ++ pubKey.1 ++ [32] ++ nonceS.1 ++
    [16] ++ nonceC.1 ++ beBytes 8 clientTimeMs

/-- Two digits of a byte, in hex. -/
def hexByte (b : UInt8) : List Char :=
  [Json.hexDigit (b.toNat / 16), Json.hexDigit (b.toNat % 16)]

/-- The relay's own key for a room: its decoded id, in hex. -/
def roomKey (roomIdBytes : Bytes) : String :=
  String.ofList (roomIdBytes.flatMap hexByte)

/-- One call of `cryptoVerify`. -/
structure Verification where
  pubKey : PubKey
  input : Bytes
  sig : Signature
  deriving DecidableEq

/-- What `verifyAuth` answers, what it leaves of the nonce, and the signature it had checked. -/
structure AuthOutcome where
  result : Except AuthFailCode (String × RoomId)
  issued : Option ServerNonce
  checked : Option Verification

/-- Verifies an auth message; the issued nonce is used up at the first attempt that
gets that far. -/
def verifyAuth (P : Primitives) (V : Verifier) (fields : AuthFields) (issued : Option ServerNonce)
    (timedOut : Bool) : AuthOutcome :=
  match decodeCrockford fields.roomText 16 with
  | none => ⟨.error .malformedAuth, issued, none⟩
  | some roomIdBytes =>
      if !V.publicKeyFromRaw fields.pubKey then ⟨.error .malformedAuth, issued, none⟩
      else if roomIdForPublicKey P fields.pubKey ≠ roomIdBytes then
        ⟨.error .roomMismatch, issued, none⟩
      else
        -- from here on the nonce is gone
        match issued with
        | none => ⟨.error .staleNonce, none, none⟩
        | some nonceS =>
            let call : Verification :=
              { pubKey := fields.pubKey
                input := buildSigInput 1 roomIdBytes fields.pubKey nonceS fields.nonceC
                  fields.clientTimeMs
                sig := fields.sig }
            if !V.cryptoVerify call.pubKey call.input call.sig then
              ⟨.error .badSignature, none, some call⟩
            else if timedOut then ⟨.error .authTimeout, none, some call⟩
            else ⟨.ok (roomKey roomIdBytes.1, roomIdBytes), none, some call⟩

variable {P : Primitives} {V : Verifier}

/-- The signature input has its fixed length, so the assertion of the source never fires. -/
theorem buildSigInput_length (version : UInt8) (roomIdBytes : RoomId) (pubKey : PubKey)
    (nonceS : ServerNonce) (nonceC : ByteArr 16) (clientTimeMs : Nat) :
    (buildSigInput version roomIdBytes pubKey nonceS nonceC clientTimeMs).length = 121 := by
  have hlabel : LABEL_AUTH.length = 12 := by decide
  have hroom : roomIdBytes.1.length = 16 := roomIdBytes.2
  have hkey : pubKey.1.length = 32 := pubKey.2
  simp [buildSigInput, hlabel, hroom, hkey, nonceS.2, nonceC.2]

/-- The nonce is as it was, or used up. -/
theorem verifyAuth_issued (fields : AuthFields) (issued : Option ServerNonce) (timedOut : Bool) :
    (verifyAuth P V fields issued timedOut).issued = issued ∨
      (verifyAuth P V fields issued timedOut).issued = none := by
  unfold verifyAuth
  split
  · exact Or.inl rfl
  · split
    · exact Or.inl rfl
    · split
      · exact Or.inl rfl
      · split
        · exact Or.inr rfl
        · dsimp only
          split
          · exact Or.inr rfl
          · split
            · exact Or.inr rfl
            · exact Or.inr rfl

/-- A frame that passes: what was checked, and the room it opens. -/
theorem verifyAuth_ok {fields : AuthFields} {issued : Option ServerNonce} {timedOut : Bool}
    {roomId : String} {roomIdBytes : RoomId}
    (h : (verifyAuth P V fields issued timedOut).result = .ok (roomId, roomIdBytes)) :
    ∃ nonceS, issued = some nonceS ∧ timedOut = false ∧
      decodeCrockford fields.roomText 16 = some roomIdBytes ∧
      roomIdForPublicKey P fields.pubKey = roomIdBytes ∧ roomId = roomKey roomIdBytes.1 ∧
      V.cryptoVerify fields.pubKey
        (buildSigInput 1 roomIdBytes fields.pubKey nonceS fields.nonceC fields.clientTimeMs)
        fields.sig = true ∧
      (verifyAuth P V fields issued timedOut).checked =
        some ⟨fields.pubKey,
          buildSigInput 1 roomIdBytes fields.pubKey nonceS fields.nonceC fields.clientTimeMs,
          fields.sig⟩ := by
  unfold verifyAuth at h ⊢
  cases hdecode : decodeCrockford fields.roomText 16 with
  | none => simp [hdecode] at h
  | some bytes =>
      cases hkey : V.publicKeyFromRaw fields.pubKey with
      | false => simp [hdecode, hkey] at h
      | true =>
          by_cases hroom : roomIdForPublicKey P fields.pubKey = bytes
          · cases issued with
            | none => simp [hdecode, hkey, hroom] at h
            | some nonceS =>
                cases hverify : V.cryptoVerify fields.pubKey
                    (buildSigInput 1 bytes fields.pubKey nonceS fields.nonceC fields.clientTimeMs)
                    fields.sig with
                | false => simp [hdecode, hkey, hroom, hverify] at h
                | true =>
                    cases timedOut with
                    | true => simp [hdecode, hkey, hroom, hverify] at h
                    | false =>
                        simp only [hdecode, hkey, hroom, hverify, Bool.not_true, Bool.false_eq_true,
                          if_false, ne_eq, not_true_eq_false, Except.ok.injEq, Prod.mk.injEq] at h
                        rcases h with ⟨hid, rfl⟩
                        refine ⟨nonceS, rfl, rfl, rfl, hroom, hid.symm, hverify, ?_⟩
                        simp [hroom, hverify]
          · simp [hdecode, hkey, hroom] at h

end Relay
end Asli
