import Asli.Crypto.Enroll

/-!
# Domains — the nine signed kinds are told apart

A device signs with one key everything it signs: a card, the three messages of a join, a new-key
bundle, a file offer and its answer, a version and a goodbye.  What it hands to the signature is a
label, the room and the body, joined without a separator.

* `Signing.label_prefixFree` — no label begins another, so a label is read off its message.
* `Signing.fields_of_accepted` — a body one kind's writer made is read back, by that kind's
  decoder, with the fields it was made from.
* `domain_separation` — what a decoder accepts was encoded by the key's owner, as that kind, for
  that room, with those fields.
-/

namespace Asli
namespace Crypto

open Logic

variable (P : Primitives)

/-! ## Cards and bundles as their bytes lay them out -/

namespace Card

def write (card : Card) : Except Error Bytes := do
  let connId ← writeText card.connId
  let name ← writeText card.name
  let os ← writeText card.os
  return [1] ++ card.deviceId.1 ++ card.signPub.1 ++ card.boxPub.1 ++ be64 card.tsMs ++ connId ++
    name ++ os

theorem encode_eq (card : Card) (keys : DeviceKeys) (room : RoomId) :
    card.encode P keys room =
      if keys.signPub P ≠ card.signPub ∨ keys.boxPub P ≠ card.boxPub then .error .badPublicKey
      else do
        let body ← card.write
        return signInto P keys LABEL_CARD room body := by
  unfold encode write
  split
  · rfl
  · cases writeText card.connId with
    | error e => rfl
    | ok connId =>
        cases writeText card.name with
        | error e => rfl
        | ok name => cases writeText card.os <;> rfl

/-- What was written and then signed is read as it was, if the signature verifies. -/
theorem decode_append {card : Card} {u : Bytes} (h : card.write = .ok u) (sig : Signature)
    (room : RoomId) :
    decode P (u ++ sig.1) room = (do
      let _ ← verifyTail P LABEL_CARD room (u ++ sig.1) card.signPub
      return card) := by
  rcases Result.bind_ok h with ⟨connId, hconn, h⟩
  rcases Result.bind_ok h with ⟨name, hname, h⟩
  rcases Result.bind_ok h with ⟨os, hos, h⟩
  cases h
  have hsig := Reader.bytes_append sig.2 []
  rw [List.append_nil] at hsig
  simp only [decode, List.cons_append, List.nil_append, List.append_assoc, Reader.u8_cons,
    Result.ok_bind, Reader.array_append, Reader.u64_append, Reader.text_append hconn,
    Reader.text_append hname, Reader.text_append hos, hsig, Reader.done, if_true, ne_eq,
    not_true_eq_false, if_false]

theorem decode_ok {body : Bytes} {room : RoomId} {card : Card}
    (h : decode P body room = .ok card) :
    ∃ covered, verifyTail P LABEL_CARD room body card.signPub = .ok covered := by
  rcases Result.bind_ok h with ⟨_, -, h⟩
  dsimp only at h
  split at h
  · cases h
  rcases Result.bind_ok h with ⟨_, -, h⟩
  rcases Result.bind_ok h with ⟨_, -, h⟩
  rcases Result.bind_ok h with ⟨_, -, h⟩
  rcases Result.bind_ok h with ⟨_, -, h⟩
  rcases Result.bind_ok h with ⟨_, -, h⟩
  rcases Result.bind_ok h with ⟨_, -, h⟩
  rcases Result.bind_ok h with ⟨_, -, h⟩
  rcases Result.bind_ok h with ⟨_, -, h⟩
  rcases Result.bind_ok h with ⟨_, -, h⟩
  rcases Result.bind_ok h with ⟨covered, hverify, h⟩
  cases h
  exact ⟨covered, hverify⟩

end Card

namespace Rekey

/-- The boxes of a bundle, one for each recipient. -/
def sealBoxes (recipients : List Recipient) (newSecret : Key) (draws : Nat → BoxDraw) :
    Except Error (List (DeviceId × Bytes)) :=
  recipients.zipIdx.mapM fun (r, i) => do
    let sealed ← sealBox P (draws i).eph (draws i).nonce r.boxPub LABEL_REKEY (1 :: newSecret.1)
    return (r.deviceId, sealed)

def writeEntry (box : DeviceId × Bytes) : Except Error Bytes := do
  let blob ← writeBlob box.2
  return box.1.1 ++ blob

/-- The body of a bundle, from the bytes of its entries. -/
def bundleBytes (fromDeviceId : DeviceId) (tsMs : UInt64) (count : Nat) (entries : List Bytes) :
    Bytes :=
  [1] ++ fromDeviceId.1 ++ be64 tsMs ++ [UInt8.ofNat count] ++ entries.flatten

/-- A bundle that was made sealed one box for each recipient and wrote them in order. -/
theorem bundle_ok {keys : DeviceKeys} {fromDeviceId : DeviceId} {oldRoom : RoomId} {tsMs : UInt64}
    {recipients : List Recipient} {newSecret : Key} {draws : Nat → BoxDraw} {body : Bytes}
    (h : bundle P keys fromDeviceId oldRoom tsMs recipients newSecret draws = .ok body) :
    ∃ boxes entries, sealBoxes P recipients newSecret draws = .ok boxes ∧
      List.Forall₂ (fun box w => writeEntry box = .ok w) boxes entries ∧ boxes.length < 256 ∧
      body = signInto P keys LABEL_REKEY oldRoom
        (bundleBytes fromDeviceId tsMs boxes.length entries) := by
  unfold bundle at h
  split at h
  · cases h
  rename_i hcount
  split at h
  · cases h
  rcases Result.bind_ok h with ⟨entries, hentries, h⟩
  cases h
  -- each round seals a box and then writes it
  rcases Result.forall₂_factor (f := fun x : Recipient × Nat => (do
      let sealed ← sealBox P (draws x.2).eph (draws x.2).nonce x.1.boxPub LABEL_REKEY
        (1 :: newSecret.1)
      return (x.1.deviceId, sealed) : Except Error (DeviceId × Bytes))) (g := writeEntry)
    (by
      rintro ⟨r, i⟩ w hround
      rcases Result.bind_ok hround with ⟨sealed, hseal, hround⟩
      exact ⟨(r.deviceId, sealed), by simp only [hseal]; rfl, hround⟩)
    (Result.mapM_ok_iff.mp hentries) with ⟨boxes, hseal, hwrite⟩
  have hlength : boxes.length = recipients.length := by
    rw [← hseal.length_eq, List.length_zipIdx]
  refine ⟨boxes, entries, Result.mapM_ok_iff.mpr hseal, hwrite, ?_, ?_⟩
  · rw [hlength]
    exact Nat.not_le.mp hcount
  · rw [hlength]
    rfl

theorem readBoxes_append {boxes : List (DeviceId × Bytes)} {entries : List Bytes}
    (h : List.Forall₂ (fun box w => writeEntry box = .ok w) boxes entries) (rest : Bytes) :
    readBoxes boxes.length (entries.flatten ++ rest) = .ok (boxes, rest) := by
  induction h with
  | nil => rfl
  | @cons box w boxes entries hw _ ih =>
      rcases Result.bind_ok hw with ⟨blob, hblob, hw⟩
      cases hw
      simp only [List.length_cons, List.flatten_cons, List.append_assoc, readBoxes,
        Reader.array_append, Result.ok_bind, Reader.blob_append hblob, ih]
      rfl

theorem readBundle_bytes {fromDeviceId : DeviceId} {tsMs : UInt64}
    {boxes : List (DeviceId × Bytes)} {entries : List Bytes}
    (h : List.Forall₂ (fun box w => writeEntry box = .ok w) boxes entries)
    (hcount : boxes.length < 256) :
    readBundle (bundleBytes fromDeviceId tsMs boxes.length entries) =
      .ok ⟨fromDeviceId, tsMs, boxes⟩ := by
  have hn : (UInt8.ofNat boxes.length).toNat = boxes.length := by
    rw [UInt8.toNat_ofNat', Nat.mod_eq_of_lt hcount]
  have hboxes := readBoxes_append h []
  rw [List.append_nil] at hboxes
  simp only [readBundle, bundleBytes, List.cons_append, List.nil_append, List.append_assoc,
    Reader.u8_cons, Result.ok_bind, Reader.array_append, Reader.u64_append, hn, hboxes, Reader.done,
    if_true, ne_eq, not_true_eq_false, if_false]
  rfl

end Rekey

/-! ## The kinds a device signs -/

/-- A call of one of the nine encoders, with its arguments. -/
inductive Signing where
  | card (card : Card)
  | joinRequest (request : JoinRequest)
  | joinGrant (request : JoinRequest) (accountSecret : Key) (neverExported : Bool)
      (draw : Rekey.BoxDraw)
  | joinDecline (requestId : RequestId)
  | rekey (fromDeviceId : DeviceId) (tsMs : UInt64) (recipients : List Rekey.Recipient)
      (newSecret : Key) (draws : Nat → Rekey.BoxDraw)
  | fileOffer (offer : Offer)
  | fileAnswer (answer : Answer)
  | about (about : About)
  | leave (leave : Leave)

/-- The fields of a signed body, by kind. -/
inductive Signed where
  | card (card : Card)
  | joinRequest (request : JoinRequest)
  | joinGrant (grant : Grant)
  | joinDecline (decline : Decline)
  | rekey (bundle : Rekey.Bundle)
  | fileOffer (offer : Offer)
  | fileAnswer (answer : Answer)
  | about (about : About)
  | leave (leave : Leave)

/-- The kinds, one for each label. -/
inductive Domain where
  | card
  | joinRequest
  | joinGrant
  | joinDecline
  | rekey
  | fileOffer
  | fileAnswer
  | about
  | leave
  deriving DecidableEq, Repr

namespace Domain

def all : List Domain :=
  [card, joinRequest, joinGrant, joinDecline, rekey, fileOffer, fileAnswer, about, leave]

theorem mem_all (d : Domain) : d ∈ all := by
  cases d <;> decide

def label : Domain → Bytes
  | card => LABEL_CARD
  | joinRequest => LABEL_REQUEST
  | joinGrant => LABEL_GRANT
  | joinDecline => LABEL_DECLINE
  | rekey => Rekey.LABEL_REKEY
  | fileOffer => LABEL_OFFER
  | fileAnswer => LABEL_ANSWER
  | about => LABEL_ABOUT
  | leave => LABEL_LEAVE

/-- No label begins another. -/
theorem label_prefixFree : ∀ d ∈ all, ∀ e ∈ all, d.label.isPrefixOf e.label = true → d = e := by
  decide +kernel

/-- A label is read off the front of whatever it begins. -/
theorem label_inj {d e : Domain} {x y : Bytes} (h : d.label ++ x = e.label ++ y) :
    d = e ∧ x = y := by
  have hprefix : d.label <+: e.label ∨ e.label <+: d.label := by
    have hleft : d.label <+: d.label ++ x := List.prefix_append _ _
    have hright : e.label <+: d.label ++ x := by
      rw [h]
      exact List.prefix_append _ _
    exact List.prefix_or_prefix_of_prefix hleft hright
  have hsame : d = e := by
    rcases hprefix with hp | hp
    · exact label_prefixFree d (mem_all d) e (mem_all e) (List.isPrefixOf_iff_prefix.mpr hp)
    · exact (label_prefixFree e (mem_all e) d (mem_all d) (List.isPrefixOf_iff_prefix.mpr hp)).symm
  cases hsame
  exact ⟨rfl, List.append_cancel_left h⟩

/-- What is handed to the signature determines the kind, the room and the body. -/
theorem signedBytes_inj {d e : Domain} {r r' : RoomId} {u u' : Bytes}
    (h : signedBytes d.label r u = signedBytes e.label r' u') : d = e ∧ r = r' ∧ u = u' := by
  unfold signedBytes at h
  rw [List.append_assoc, List.append_assoc] at h
  rcases label_inj h with ⟨hdomain, hrest⟩
  have hlength : r.1.length = r'.1.length := r.2.trans r'.2.symm
  rcases List.append_inj hrest hlength with ⟨hroom, hbody⟩
  exact ⟨hdomain, Subtype.ext hroom, hbody⟩

end Domain

namespace Signing

def domain : Signing → Domain
  | card _ => .card
  | joinRequest _ => .joinRequest
  | joinGrant _ _ _ _ => .joinGrant
  | joinDecline _ => .joinDecline
  | rekey _ _ _ _ _ => .rekey
  | fileOffer _ => .fileOffer
  | fileAnswer _ => .fileAnswer
  | about _ => .about
  | leave _ => .leave

/-- The body the encoder makes: the source's function for the kind, at these arguments. -/
def encode (owner : DeviceKeys) (room : RoomId) : Signing → Except Error Bytes
  | card c => c.encode P owner room
  | joinRequest request => request.encode P owner room
  | joinGrant request accountSecret neverExported draw =>
      grant P owner room request accountSecret neverExported draw
  | joinDecline requestId => decline P owner room requestId
  | rekey fromDeviceId tsMs recipients newSecret draws =>
      Rekey.bundle P owner fromDeviceId room tsMs recipients newSecret draws
  | fileOffer o => o.encode P owner room
  | fileAnswer a => a.encode P owner room
  | about a => a.encode P owner room
  | leave l => .ok (l.encode P owner room)

/-- The fields the body is made from.  A box counts as the bytes it was sealed to. -/
def fields (owner : DeviceKeys) : Signing → Except Error Signed
  | card c => .ok (.card c)
  | joinRequest request => .ok (.joinRequest request)
  | joinGrant request accountSecret neverExported draw =>
      (grantFields P owner request accountSecret neverExported draw).map .joinGrant
  | joinDecline requestId => .ok (.joinDecline ⟨requestId, owner.signPub P⟩)
  | rekey fromDeviceId tsMs recipients newSecret draws =>
      (Rekey.sealBoxes P recipients newSecret draws).map fun boxes =>
        .rekey ⟨fromDeviceId, tsMs, boxes⟩
  | fileOffer o => .ok (.fileOffer o)
  | fileAnswer a => .ok (.fileAnswer a)
  | about a => .ok (.about a)
  | leave l => .ok (.leave l)

end Signing

namespace Signed

def domain : Signed → Domain
  | card _ => .card
  | joinRequest _ => .joinRequest
  | joinGrant _ => .joinGrant
  | joinDecline _ => .joinDecline
  | rekey _ => .rekey
  | fileOffer _ => .fileOffer
  | fileAnswer _ => .fileAnswer
  | about _ => .about
  | leave _ => .leave

/-- The decoder of a kind accepts a body in a room under a public key, with these fields.  A card,
a request, a grant and a decline carry the key they are checked under. -/
def Accepted (room : RoomId) (signPub : PubKey) (body : Bytes) : Signed → Prop
  | card c => Card.decode P body room = .ok c ∧ c.signPub = signPub
  | joinRequest request => JoinRequest.decode P body room = .ok request ∧ request.signPub = signPub
  | joinGrant g => Grant.read body = .ok g ∧ g.approver = signPub ∧
      ∃ code keys requestId granted, openGrant P code room keys requestId body = .ok granted
  | joinDecline d => Decline.read body = .ok d ∧ d.approver = signPub ∧
      ∃ code requestId, isDeclineFor P code room requestId body = true
  | rekey b => Rekey.readBundle (unsignedPart body) = .ok b ∧
      ∃ keys deviceId opened, Rekey.open_ P keys deviceId room signPub body = .ok opened
  | fileOffer o => Offer.decode P body room signPub = .ok o
  | fileAnswer a => Answer.decode P body room signPub = .ok a
  | about a => About.decode P body room signPub = .ok a
  | leave l => Leave.decode P body room signPub = .ok l

variable {P}

/-- Whatever the kind, what is accepted ends in a signature over its label, the room
and the rest. -/
theorem Accepted.signed {room : RoomId} {signPub : PubKey} {body : Bytes} {f : Signed}
    (h : f.Accepted P room signPub body) :
    ∃ (u : Bytes) (sig : Signature), body = u ++ sig.1 ∧
      P.edVerifyStrict signPub (signedBytes f.domain.label room u) sig = true := by
  cases f with
  | card card =>
      rcases h with ⟨hdecode, rfl⟩
      rcases Card.decode_ok P hdecode with ⟨u, htail⟩
      rcases verifyTail_ok P htail with ⟨sig, hbody, hsig⟩
      exact ⟨u, sig, hbody, hsig⟩
  | joinRequest request =>
      rcases h with ⟨hdecode, rfl⟩
      exact verifyBody_ok P (JoinRequest.decode_ok P hdecode)
  | joinGrant grant =>
      rcases h with ⟨hread, rfl, code, keys, requestId, granted, hopen⟩
      rcases openGrant_ok P hopen with ⟨g, _, hread', -, -, -, hverify, -, -⟩
      rw [hread] at hread'
      cases hread'
      exact verifyBody_ok P hverify
  | joinDecline decline =>
      rcases h with ⟨hread, rfl, code, requestId, htrue⟩
      rcases isDeclineFor_true P htrue with ⟨d, hread', -, -, hverify⟩
      rw [hread] at hread'
      cases hread'
      exact verifyBody_ok P hverify
  | rekey bundle =>
      rcases h with ⟨-, keys, deviceId, opened, hopen⟩
      rw [Rekey.open_eq] at hopen
      rcases Result.bind_ok hopen with ⟨u, htail, -⟩
      rcases verifyTail_ok P htail with ⟨sig, hbody, hsig⟩
      exact ⟨u, sig, hbody, hsig⟩
  | fileOffer offer =>
      rcases Result.bind_ok h with ⟨_, hverify, -⟩
      exact verifyBody_ok P hverify
  | fileAnswer answer =>
      rcases Result.bind_ok h with ⟨_, hverify, -⟩
      exact verifyBody_ok P hverify
  | about about =>
      rcases Result.bind_ok h with ⟨_, hverify, -⟩
      exact verifyBody_ok P hverify
  | leave leave =>
      rcases Result.bind_ok h with ⟨_, hverify, -⟩
      exact verifyBody_ok P hverify

end Signed

namespace Signing

variable {P}

/-- A body that was made is its unsigned part and the owner's signature over it; and whoever's
signature stands at its end, the kind's decoder reads the fields it was made from. -/
theorem fields_of_accepted {owner : DeviceKeys} {room : RoomId} {s : Signing} {body : Bytes}
    (h : s.encode P owner room = .ok body) :
    ∃ u f, body = signInto P owner s.domain.label room u ∧ s.fields P owner = .ok f ∧
      f.domain = s.domain ∧
      ∀ (room' : RoomId) (signPub : PubKey) (sig : Signature) (f' : Signed),
        f'.domain = s.domain → f'.Accepted P room' signPub (u ++ sig.1) → f' = f := by
  cases s with
  | card card =>
      have hencode : card.encode P owner room = .ok body := h
      rw [Card.encode_eq] at hencode
      split at hencode
      · cases hencode
      rcases Result.bind_ok hencode with ⟨u, hwrite, hencode⟩
      cases hencode
      refine ⟨u, .card card, rfl, rfl, rfl, ?_⟩
      intro room' signPub sig f' hdomain haccepted
      cases f' with
      | card card' =>
          have hdecode := haccepted.1
          rw [Card.decode_append P hwrite] at hdecode
          rcases Result.bind_ok hdecode with ⟨_, -, hdecode⟩
          cases hdecode
          rfl
      | _ => cases hdomain
  | joinRequest request =>
      have hencode : request.encode P owner room = .ok body := h
      unfold JoinRequest.encode at hencode
      split at hencode
      · cases hencode
      rcases Result.bind_ok hencode with ⟨u, hwrite, hencode⟩
      cases hencode
      refine ⟨u, .joinRequest request, rfl, rfl, rfl, ?_⟩
      intro room' signPub sig f' hdomain haccepted
      cases f' with
      | joinRequest request' =>
          have hdecode := haccepted.1
          rw [JoinRequest.decode_append P hwrite] at hdecode
          rcases Result.bind_ok hdecode with ⟨_, -, hdecode⟩
          cases hdecode
          rfl
      | _ => cases hdomain
  | joinGrant request accountSecret neverExported draw =>
      rcases Result.bind_ok h with ⟨g, hfields, h⟩
      rcases Result.bind_ok h with ⟨u, hwrite, h⟩
      cases h
      refine ⟨u, .joinGrant g, rfl, ?_, rfl, ?_⟩
      · show (grantFields P owner request accountSecret neverExported draw).map _ = _
        rw [hfields]
        rfl
      intro room' signPub sig f' hdomain haccepted
      cases f' with
      | joinGrant g' =>
          have hread := haccepted.1
          rw [Grant.read_append hwrite] at hread
          cases hread
          rfl
      | _ => cases hdomain
  | joinDecline requestId =>
      cases h
      refine ⟨Decline.write ⟨requestId, owner.signPub P⟩, .joinDecline ⟨requestId, owner.signPub P⟩,
        rfl, rfl, rfl, ?_⟩
      intro room' signPub sig f' hdomain haccepted
      cases f' with
      | joinDecline d' =>
          have hread := haccepted.1
          rw [Decline.read_append] at hread
          cases hread
          rfl
      | _ => cases hdomain
  | rekey fromDeviceId tsMs recipients newSecret draws =>
      rcases Rekey.bundle_ok P h with ⟨boxes, entries, hboxes, hentries, hcount, rfl⟩
      refine ⟨_, .rekey ⟨fromDeviceId, tsMs, boxes⟩, rfl, ?_, rfl, ?_⟩
      · show (Rekey.sealBoxes P recipients newSecret draws).map _ = _
        rw [hboxes]
        rfl
      intro room' signPub sig f' hdomain haccepted
      cases f' with
      | rekey b =>
          have hread := haccepted.1
          rw [unsignedPart_append, Rekey.readBundle_bytes hentries hcount] at hread
          cases hread
          rfl
      | _ => cases hdomain
  | fileOffer offer =>
      rcases Result.bind_ok h with ⟨u, hwrite, h⟩
      cases h
      refine ⟨u, .fileOffer offer, rfl, rfl, rfl, ?_⟩
      intro room' signPub sig f' hdomain haccepted
      cases f' with
      | fileOffer offer' =>
          rcases Result.bind_ok haccepted with ⟨_, -, hread⟩
          rw [unsignedPart_append, Offer.read_write hwrite] at hread
          -- a piece size no reader takes leaves nothing accepted
          split at hread
          · cases hread
          · cases hread
            rfl
      | _ => cases hdomain
  | fileAnswer answer =>
      rcases Result.bind_ok h with ⟨u, hwrite, h⟩
      cases h
      refine ⟨u, .fileAnswer answer, rfl, rfl, rfl, ?_⟩
      intro room' signPub sig f' hdomain haccepted
      cases f' with
      | fileAnswer answer' =>
          rcases Result.bind_ok haccepted with ⟨_, -, hread⟩
          rw [unsignedPart_append, Answer.read_write hwrite] at hread
          cases hread
          rfl
      | _ => cases hdomain
  | about about =>
      rcases Result.bind_ok h with ⟨u, hwrite, h⟩
      cases h
      refine ⟨u, .about about, rfl, rfl, rfl, ?_⟩
      intro room' signPub sig f' hdomain haccepted
      cases f' with
      | about about' =>
          rcases Result.bind_ok haccepted with ⟨_, -, hread⟩
          rw [unsignedPart_append, About.read_write hwrite] at hread
          cases hread
          rfl
      | _ => cases hdomain
  | leave leave =>
      cases h
      refine ⟨leave.write, .leave leave, rfl, rfl, rfl, ?_⟩
      intro room' signPub sig f' hdomain haccepted
      cases f' with
      | leave leave' =>
          rcases Result.bind_ok haccepted with ⟨_, -, hread⟩
          rw [unsignedPart_append, Leave.read_write] at hread
          cases hread
          rfl
      | _ => cases hdomain

end Signing

/-! ## Domain separation -/

/-- An encoder called for a room. -/
structure SigningCall where
  what : Signing
  room : RoomId

/-- The message a call hands to the signature, when it gets that far. -/
def SigningCall.message? (owner : DeviceKeys) (call : SigningCall) : Option Bytes :=
  match call.what.encode P owner call.room with
  | .ok body => some (signedBytes call.what.domain.label call.room (unsignedPart body))
  | .error _ => none

/-- Ideal signatures of one key: a signature that verifies was made by signing one of the owner's
messages, and no two of these get the same signature. -/
structure IdealSignatures (owner : DeviceKeys) (calls : List SigningCall) : Prop where
  made : ∀ message sig, P.edVerifyStrict (owner.signPub P) message sig = true →
    message ∈ calls.filterMap (SigningCall.message? P owner) ∧ sig = owner.sign P message
  binding : ∀ m ∈ calls.filterMap (SigningCall.message? P owner),
    ∀ m' ∈ calls.filterMap (SigningCall.message? P owner),
      owner.sign P m = owner.sign P m' → m = m'

variable {P}

theorem SigningCall.mem_messages {owner : DeviceKeys} {calls : List SigningCall}
    {message : Bytes} :
    message ∈ calls.filterMap (SigningCall.message? P owner) ↔
      ∃ call ∈ calls, ∃ u f, call.what.encode P owner call.room =
          .ok (signInto P owner call.what.domain.label call.room u) ∧
        message = signedBytes call.what.domain.label call.room u ∧
        call.what.fields P owner = .ok f ∧
        ∀ (room' : RoomId) (signPub : PubKey) (sig : Signature) (f' : Signed),
          f'.domain = call.what.domain → f'.Accepted P room' signPub (u ++ sig.1) → f' = f := by
  rw [List.mem_filterMap]
  constructor
  · rintro ⟨call, hmem, hmessage⟩
    unfold SigningCall.message? at hmessage
    split at hmessage
    · rename_i body hencode
      cases hmessage
      rcases Signing.fields_of_accepted hencode with ⟨u, f, rfl, hfields, -, hread⟩
      refine ⟨call, hmem, u, f, hencode, ?_, hfields, hread⟩
      rw [signInto, unsignedPart_append]
    · cases hmessage
  · rintro ⟨call, hmem, u, f, hencode, rfl, -, -⟩
    refine ⟨call, hmem, ?_⟩
    unfold SigningCall.message?
    rw [hencode]
    simp only [signInto, unsignedPart_append]

/-- What a decoder accepts under a key, the owner of the key encoded: as the same kind, for the
same room, with the same fields.  And a body the owner encoded is accepted as nothing else. -/
theorem domain_separation {owner : DeviceKeys} {calls : List SigningCall}
    (hideal : IdealSignatures P owner calls) {room : RoomId} {body : Bytes} {f : Signed}
    (haccepted : f.Accepted P room (owner.signPub P) body) :
    (∃ call ∈ calls, call.what.domain = f.domain ∧ call.room = room ∧
      call.what.encode P owner room = .ok body ∧ call.what.fields P owner = .ok f) ∧
    ∀ call ∈ calls, call.what.encode P owner call.room = .ok body →
      call.what.domain = f.domain ∧ call.room = room ∧ call.what.fields P owner = .ok f := by
  rcases haccepted.signed with ⟨u, sig, rfl, hverify⟩
  rcases hideal.made _ sig hverify with ⟨hmem, rfl⟩
  constructor
  · rcases SigningCall.mem_messages.mp hmem with
      ⟨call, hcall, u', f', hencode, hsame, hfields, hread⟩
    rcases Domain.signedBytes_inj hsame with ⟨hdomain, rfl, rfl⟩
    have hf := hread call.room _ _ f hdomain haccepted
    refine ⟨call, hcall, hdomain.symm, rfl, ?_, ?_⟩
    · rw [hencode, signInto, hdomain]
    · rw [hfields, hf]
  · intro call hcall hencode
    rcases Signing.fields_of_accepted hencode with ⟨u', f', hbody, hfields, -, hread⟩
    -- the two signatures stand at the end of one body, so they are over one message
    have hlength : u.length = u'.length := by
      have hlen := congrArg List.length hbody
      rw [signInto, List.length_append, List.length_append, (owner.sign P _).2,
        (owner.sign P _).2] at hlen
      exact Nat.add_right_cancel hlen
    rcases List.append_inj hbody hlength with ⟨rfl, hsig⟩
    have hmem' : signedBytes call.what.domain.label call.room u ∈
        calls.filterMap (SigningCall.message? P owner) :=
      SigningCall.mem_messages.mpr ⟨call, hcall, u, f', by rw [hencode, hbody], rfl, hfields, hread⟩
    have hmessage := hideal.binding _ hmem _ hmem' (Subtype.ext hsig)
    rcases Domain.signedBytes_inj hmessage with ⟨hdomain, rfl, -⟩
    have hf := hread call.room _ _ f hdomain haccepted
    exact ⟨hdomain.symm, rfl, by rw [hfields, hf]⟩

/-! ## One goodbye

A device that has signed one goodbye, and a signature that is good for that message alone. -/

namespace OneGoodbye

def room : RoomId := ByteArr.fill 16 9
def owner : DeviceKeys := ⟨ByteArr.fill 32 1⟩
def goodbye : Leave := ⟨ByteArr.fill 16 2, 7⟩
def call : SigningCall := ⟨.leave goodbye, room⟩

def primitives : Primitives where
  aeadEncrypt := fun _ _ _ _ => none
  aeadDecrypt := fun _ _ _ _ => none
  sha256 := fun _ => ByteArr.fill 32 0
  hkdfExtract := fun _ _ => ByteArr.fill 32 0
  hkdfExpand := fun _ _ => ByteArr.fill 32 0
  edPublic := fun _ => ByteArr.fill 32 3
  edSign := fun _ _ => ByteArr.fill 64 4
  edValid := fun _ => true
  edVerifyStrict := fun _ message signature =>
    message == signedBytes LABEL_LEAVE room goodbye.write && signature == ByteArr.fill 64 4
  x25519Public := fun _ => ByteArr.fill 32 0
  x25519 := fun _ _ => ByteArr.fill 32 0

theorem messages :
    [call].filterMap (SigningCall.message? primitives owner) =
      [signedBytes LABEL_LEAVE room goodbye.write] := by
  simp only [List.filterMap_cons, List.filterMap_nil, SigningCall.message?, call, Signing.encode,
    Leave.encode, signInto, unsignedPart_append]
  rfl

theorem ideal : IdealSignatures primitives owner [call] where
  made := by
    intro message sig h
    have hboth : message = signedBytes LABEL_LEAVE room goodbye.write ∧
        sig = ByteArr.fill 64 4 := by
      have hand : (message == signedBytes LABEL_LEAVE room goodbye.write) = true ∧
          (sig == ByteArr.fill 64 4) = true := Bool.and_eq_true_iff.mp h
      exact ⟨beq_iff_eq.mp hand.1, beq_iff_eq.mp hand.2⟩
    rw [messages, hboth.1]
    exact ⟨List.mem_cons_self, hboth.2⟩
  binding := by
    intro m hm m' hm' _
    rw [messages] at hm hm'
    rw [List.mem_singleton.mp hm, List.mem_singleton.mp hm']

theorem accepted :
    (Signed.leave goodbye).Accepted primitives room (owner.signPub primitives)
      (goodbye.encode primitives owner room) := by
  show Leave.decode primitives (goodbye.encode primitives owner room) room _ = .ok goodbye
  decide +kernel

end OneGoodbye

theorem domain_separation_goodbye :
    (∃ call ∈ [OneGoodbye.call], call.what.domain = .leave ∧ call.room = OneGoodbye.room ∧
      call.what.encode OneGoodbye.primitives OneGoodbye.owner OneGoodbye.room =
        .ok (OneGoodbye.goodbye.encode OneGoodbye.primitives OneGoodbye.owner OneGoodbye.room) ∧
      call.what.fields OneGoodbye.primitives OneGoodbye.owner = .ok (.leave OneGoodbye.goodbye)) ∧
    ∀ call ∈ [OneGoodbye.call],
      call.what.encode OneGoodbye.primitives OneGoodbye.owner call.room =
        .ok (OneGoodbye.goodbye.encode OneGoodbye.primitives OneGoodbye.owner OneGoodbye.room) →
      call.what.domain = .leave ∧ call.room = OneGoodbye.room ∧
        call.what.fields OneGoodbye.primitives OneGoodbye.owner =
          .ok (.leave OneGoodbye.goodbye) :=
  domain_separation OneGoodbye.ideal OneGoodbye.accepted

end Crypto
end Asli
