import Asli.Crypto.Domains
import Asli.Net.Client
import Asli.Net.Rekeying

/-!
# RekeyFrame — when a key change becomes a frame or is given back

`frames_for` gives a device message back to its sender, token and all, when the handshake is not
done or the relay is known not to forward messages.  Every other error of a key change ends the
connection, and the change is tried again on the next one.

* `sealBox_iff`, `bundle_iff` — when a box, and a bundle of boxes, can be made.
* `rekeyFrame_outcome` — the three ways `rekey_frame` goes.
* `key_change_ends_iff` — when a key change does not end the connection.
-/

namespace Asli

open Logic
open Crypto (Primitives Key Nonce BoxPub)

namespace Crypto

/-- The documented encryption takes every message that is not absurdly long, and adds a tag. -/
structure AeadTotal (P : Primitives) : Prop where
  encrypts : ∀ key nonce message aad, message.length ≤ 2 ^ 32 →
    ∃ ciphertext, P.aeadEncrypt key nonce message aad = some ciphertext ∧
      ciphertext.length = message.length + TAG_LEN

namespace Rekey

variable (P : Primitives)

/-- A box can be made for a key: the randomness is there, and the key gives a shared secret with
the ephemeral secret that was drawn. -/
def Usable (draw : BoxDraw) (boxPub : BoxPub) : Prop :=
  ∃ eph nonce, draw.eph = some eph ∧ draw.nonce = some nonce ∧
    contributory (P.x25519 eph boxPub) = true

variable {P}

theorem sealBox_iff (hP : AeadTotal P) {draw : BoxDraw} {recipient : BoxPub} (label : Bytes)
    {plaintext : Bytes} (hlen : plaintext.length ≤ 2 ^ 32) :
    (∃ b, sealBox P draw.eph draw.nonce recipient label plaintext = .ok b) ↔
      Usable P draw recipient := by
  constructor
  · rintro ⟨b, h⟩
    rcases Result.bind_ok h with ⟨eph, heph, h⟩
    rcases Result.bind_ok h with ⟨nonce, hnonce, h⟩
    refine ⟨eph, nonce, ?_, ?_, ?_⟩
    · cases hdraw : draw.eph with
      | none => rw [hdraw] at heph; cases heph
      | some e => rw [hdraw] at heph; cases heph; rfl
    · cases hdraw : draw.nonce with
      | none => rw [hdraw] at hnonce; cases hnonce
      | some n => rw [hdraw] at hnonce; cases hnonce; rfl
    · by_contra hzero
      dsimp only at h
      rw [Bool.eq_false_iff.mpr hzero] at h
      cases h
  · rintro ⟨eph, nonce, heph, hnonce, hshared⟩
    rcases hP.encrypts (boxKey P (P.x25519 eph recipient) (P.x25519Public eph) recipient label)
      nonce plaintext label hlen with ⟨ciphertext, hct, -⟩
    refine ⟨(P.x25519Public eph).1 ++ nonce.1 ++ ciphertext, ?_⟩
    rw [sealBox, heph, hnonce]
    simp only [drawn_some, Result.ok_bind, hshared, hct]
    rfl

theorem sealBox_length (hP : AeadTotal P) {eph : Option Key} {nonce : Option Nonce}
    {recipient : BoxPub} {label plaintext b : Bytes} (hlen : plaintext.length ≤ 2 ^ 32)
    (h : sealBox P eph nonce recipient label plaintext = .ok b) :
    b.length = SEALED_BOX_OVERHEAD + plaintext.length := by
  rcases Result.bind_ok h with ⟨eph, -, h⟩
  rcases Result.bind_ok h with ⟨nonce, -, h⟩
  dsimp only at h
  split at h
  · cases h
  rcases hP.encrypts (boxKey P (P.x25519 eph recipient) (P.x25519Public eph) recipient label)
    nonce plaintext label hlen with ⟨ciphertext, hct, hctlen⟩
  rw [hct] at h
  cases h
  calc ((P.x25519Public eph).1 ++ nonce.1 ++ ciphertext).length
      = 32 + 24 + ciphertext.length := by
        rw [List.length_append, List.length_append, (P.x25519Public eph).2, nonce.2]
    _ = 32 + 24 + TAG_LEN + plaintext.length := by
        rw [hctlen, Nat.add_comm plaintext.length, ← Nat.add_assoc]
    _ = SEALED_BOX_OVERHEAD + plaintext.length := rfl

/-- One round of the loop of `bundle`. -/
def entry (P : Primitives) (newSecret : Key) (draws : Nat → BoxDraw) (x : Recipient × Nat) :
    Except Error Bytes := do
  let sealed ← sealBox P (draws x.2).eph (draws x.2).nonce x.1.boxPub LABEL_REKEY
    (1 :: newSecret.1)
  let blob ← writeBlob sealed
  return x.1.deviceId.1 ++ blob

theorem inner_length (newSecret : Key) : (1 :: newSecret.1 : Bytes).length = 33 := by
  rw [List.length_cons, newSecret.2]

theorem inner_short (newSecret : Key) : (1 :: newSecret.1 : Bytes).length ≤ 2 ^ 32 := by
  rw [inner_length]
  decide

theorem writeBlob_short {b : Bytes} (h : b.length < 2 ^ 32) :
    writeBlob b = .ok (be32 (UInt32.ofNat b.length) ++ b) :=
  if_neg (Nat.not_le.mpr h)

theorem entry_iff (hP : AeadTotal P) (newSecret : Key) (draws : Nat → BoxDraw)
    (x : Recipient × Nat) :
    (∃ w, entry P newSecret draws x = .ok w) ↔ Usable P (draws x.2) x.1.boxPub := by
  rw [← sealBox_iff hP LABEL_REKEY (inner_short newSecret)]
  constructor
  · rintro ⟨w, h⟩
    rcases Result.bind_ok h with ⟨sealed, hseal, -⟩
    exact ⟨sealed, hseal⟩
  · rintro ⟨sealed, hseal⟩
    have hlen := sealBox_length hP (inner_short newSecret) hseal
    rw [inner_length, SEALED_BOX_OVERHEAD] at hlen
    have hshort : sealed.length < 2 ^ 32 := by
      rw [hlen]
      decide
    refine ⟨x.1.deviceId.1 ++ (be32 (UInt32.ofNat sealed.length) ++ sealed), ?_⟩
    rw [entry, hseal, Result.ok_bind, writeBlob_short hshort]
    rfl

/-- Every entry takes as many bytes as the next. -/
theorem entry_length (hP : AeadTotal P) {newSecret : Key} {draws : Nat → BoxDraw}
    {x : Recipient × Nat} {w : Bytes} (h : entry P newSecret draws x = .ok w) : w.length = 125 := by
  rcases Result.bind_ok h with ⟨sealed, hseal, h⟩
  have hlen := sealBox_length hP (inner_short newSecret) hseal
  rw [inner_length, SEALED_BOX_OVERHEAD] at hlen
  have hshort : sealed.length < 2 ^ 32 := by
    rw [hlen]
    decide
  rw [writeBlob_short hshort] at h
  cases h
  rw [List.length_append, List.length_append, x.1.deviceId.2, be32_length, hlen]
  rfl

theorem flatten_length {ws : List Bytes} {n : Nat} (h : ∀ w ∈ ws, w.length = n) :
    ws.flatten.length = ws.length * n := by
  calc ws.flatten.length
      = (ws.map List.length).sum := List.length_flatten
    _ = (List.replicate ws.length n).sum := by
        rw [List.map_congr_left h, List.map_const']
    _ = ws.length * n := by
        rw [List.sum_replicate_nat]

theorem bundle_eq (keys : DeviceKeys) (fromDeviceId : DeviceId) (oldRoom : RoomId)
    (tsMs : UInt64) (recipients : List Recipient) (newSecret : Key) (draws : Nat → BoxDraw) :
    bundle P keys fromDeviceId oldRoom tsMs recipients newSecret draws =
      if recipients.length > MAX_RECIPIENTS then .error .innerMalformed
      else do
        let entries ← recipients.zipIdx.mapM (entry P newSecret draws)
        return signInto P keys LABEL_REKEY oldRoom
          (bundleBytes fromDeviceId tsMs recipients.length entries) := by
  rw [bundle]
  split
  next hmany =>
    have hmore : recipients.length > MAX_RECIPIENTS :=
      Nat.lt_of_lt_of_le (by decide) hmany
    rw [if_pos hmore]
  next => rfl

/-- A bundle can be made for at most 64 recipients, each of whose keys takes a box. -/
theorem bundle_iff (hP : AeadTotal P) (keys : DeviceKeys) (fromDeviceId : DeviceId)
    (oldRoom : RoomId) (tsMs : UInt64) (recipients : List Recipient) (newSecret : Key)
    (draws : Nat → BoxDraw) :
    (∃ body, bundle P keys fromDeviceId oldRoom tsMs recipients newSecret draws = .ok body) ↔
      recipients.length ≤ MAX_RECIPIENTS ∧
        ∀ x ∈ recipients.zipIdx, Usable P (draws x.2) x.1.boxPub := by
  rw [bundle_eq]
  constructor
  · rintro ⟨body, h⟩
    split at h
    · cases h
    rename_i hfew
    rcases Result.bind_ok h with ⟨entries, hentries, -⟩
    refine ⟨Nat.not_lt.mp hfew, fun x hx => (entry_iff hP newSecret draws x).mp ?_⟩
    rcases (List.forall₂_iff_get.mp (Result.mapM_ok_iff.mp hentries)) with ⟨hlength, hget⟩
    obtain ⟨i, hi, rfl⟩ := List.mem_iff_getElem.mp hx
    exact ⟨_, hget i hi (hlength ▸ hi)⟩
  · rintro ⟨hfew, husable⟩
    rw [if_neg (Nat.not_lt.mpr hfew)]
    rcases Result.exists_mapM_ok fun x hx => (entry_iff hP newSecret draws x).mpr (husable x hx)
      with ⟨entries, hentries⟩
    exact ⟨_, by rw [hentries]; rfl⟩

theorem bundle_short (hP : AeadTotal P) {keys : DeviceKeys} {fromDeviceId : DeviceId}
    {oldRoom : RoomId} {tsMs : UInt64} {recipients : List Recipient} {newSecret : Key}
    {draws : Nat → BoxDraw} {body : Bytes}
    (h : bundle P keys fromDeviceId oldRoom tsMs recipients newSecret draws = .ok body) :
    body.length < 2 ^ 31 := by
  rw [bundle_eq] at h
  split at h
  · cases h
  rename_i hfew
  rcases Result.bind_ok h with ⟨entries, hentries, h⟩
  cases h
  have hall := Result.mapM_ok_iff.mp hentries
  have hcount : entries.length = recipients.length := by
    rw [← hall.length_eq, List.length_zipIdx]
  have heach : ∀ w ∈ entries, w.length = 125 := by
    intro w hw
    rcases List.forall₂_iff_get.mp hall with ⟨hlength, hget⟩
    obtain ⟨i, hi, rfl⟩ := List.mem_iff_getElem.mp hw
    exact entry_length hP (hget i (hlength ▸ hi) hi)
  have hbody : (bundleBytes fromDeviceId tsMs recipients.length entries).length =
      0 + 1 + 16 + 8 + (0 + 1) + recipients.length * 125 := by
    simp only [bundleBytes, List.length_append, List.length_cons, List.length_nil, fromDeviceId.2,
      be64_length, flatten_length heach, hcount]
    rfl
  have hsize : recipients.length * 125 ≤ 64 * 125 :=
    Nat.mul_le_mul_right 125 (Nat.not_lt.mp hfew)
  calc (signInto P keys LABEL_REKEY oldRoom
        (bundleBytes fromDeviceId tsMs recipients.length entries)).length
      = 0 + 1 + 16 + 8 + (0 + 1) + recipients.length * 125 + 64 := by
        rw [signInto, List.length_append, hbody, (keys.sign P _).2]
    _ ≤ 0 + 1 + 16 + 8 + (0 + 1) + 64 * 125 + 64 := by omega
    _ < 2 ^ 31 := by decide

end Rekey
end Crypto

namespace Net

open Core (DeviceId)

namespace Session

variable (P : Primitives)

/-- Who a key change goes to, when every device to keep has been seen. -/
def recipients (s : Session) (keep : List DeviceId) : Option (List Crypto.Rekey.Recipient) :=
  keep.mapM fun id => (s.known.lookup id).map fun d => Crypto.Rekey.Recipient.mk id d.boxPub

/-- Whether a device message sent now gets as far as being sealed. -/
def takesMessages (s : Session) : Bool :=
  decide (s.phase = .ready) && decide (s.msgProbe ≠ .refused)

/-- When a key change does not end the connection.  It is given back for want of keys of this
device, of a card of a device to keep, or of a relay that takes it, but in the last case only when
the bundle can be made at all. -/
def KeyChangeEnds (s : Session) (keep : List DeviceId) (draws : EventDraws) : Prop :=
  s.deviceKeys = none ∨ (∃ id ∈ keep, s.known.lookup id = none) ∨
    (keep.length ≤ Crypto.Rekey.MAX_RECIPIENTS ∧
      (∀ (i : Nat) (id : DeviceId) (d : KnownDevice), keep[i]? = some id →
        s.known.lookup id = some d → Crypto.Rekey.Usable P (draws.boxes i) d.boxPub) ∧
      (s.takesMessages = true → draws.frame.msgId.isSome ∧ draws.frame.nonce.isSome))

/-- What the claim asks of one key change: one frame, or the token given back. -/
def Ended (token : UInt64) (r : Session × List ClientEvent × Except Error (List Message)) : Prop :=
  (∃ frame, r.2 = ([], .ok [frame])) ∨ ∃ reason, r.2 = ([.notSent (some token) reason], .ok [])

variable {P}

theorem recipients_none_iff (s : Session) (keep : List DeviceId) :
    s.recipients keep = none ↔ ∃ id ∈ keep, s.known.lookup id = none := by
  unfold recipients
  induction keep with
  | nil => simp
  | cons id keep ih =>
      rw [List.mapM_cons]
      cases hd : s.known.lookup id with
      | none =>
          exact iff_of_true rfl ⟨id, List.mem_cons_self, hd⟩
      | some d =>
          have hrest : (∃ other ∈ id :: keep, s.known.lookup other = none) ↔
              ∃ other ∈ keep, s.known.lookup other = none := by
            constructor
            · rintro ⟨other, hmem, hnone⟩
              rcases List.mem_cons.mp hmem with rfl | hmem
              · rw [hd] at hnone
                cases hnone
              · exact ⟨other, hmem, hnone⟩
            · rintro ⟨other, hmem, hnone⟩
              exact ⟨other, List.mem_cons_of_mem id hmem, hnone⟩
          rw [hrest, ← ih]
          cases keep.mapM fun id => (s.known.lookup id).map fun d =>
              Crypto.Rekey.Recipient.mk id d.boxPub with
          | none => exact iff_of_true rfl rfl
          | some rs => exact iff_of_false (by intro h; cases h) (by intro h; cases h)

/-- The recipients are the devices to keep, in their order, each under its pinned box key. -/
theorem recipients_get {s : Session} {keep : List DeviceId} {rs : List Crypto.Rekey.Recipient}
    (h : s.recipients keep = some rs) :
    rs.length = keep.length ∧ ∀ (i : Nat) (id : DeviceId), keep[i]? = some id →
      ∃ d, s.known.lookup id = some d ∧ rs[i]? = some ⟨id, d.boxPub⟩ := by
  unfold recipients at h
  induction keep generalizing rs with
  | nil =>
      cases h
      exact ⟨rfl, fun i id hid => by cases hid⟩
  | cons id keep ih =>
      rw [List.mapM_cons] at h
      rcases Option.bind_eq_some_iff.mp h with ⟨r, hr, h⟩
      rcases Option.bind_eq_some_iff.mp h with ⟨tail, htail, h⟩
      cases h
      rcases Option.map_eq_some_iff.mp hr with ⟨d, hd, rfl⟩
      rcases ih htail with ⟨hlength, hget⟩
      refine ⟨by rw [List.length_cons, List.length_cons, hlength], ?_⟩
      intro i other hother
      cases i with
      | zero =>
          cases hother
          exact ⟨d, hd, rfl⟩
      | succ i => exact hget i other hother

/-- Each recipient's key takes the box drawn for it. -/
theorem usable_iff {s : Session} {keep : List DeviceId} {rs : List Crypto.Rekey.Recipient}
    (h : s.recipients keep = some rs) (boxes : Nat → Crypto.Rekey.BoxDraw) :
    (∀ x ∈ rs.zipIdx, Crypto.Rekey.Usable P (boxes x.2) x.1.boxPub) ↔
      ∀ (i : Nat) (id : DeviceId) (d : KnownDevice), keep[i]? = some id →
        s.known.lookup id = some d → Crypto.Rekey.Usable P (boxes i) d.boxPub := by
  rcases recipients_get h with ⟨hlength, hget⟩
  constructor
  · intro hall i id d hid hd
    rcases hget i id hid with ⟨pinned, hpinned, hri⟩
    rw [hd] at hpinned
    cases hpinned
    exact hall (⟨id, d.boxPub⟩, i) (List.mem_zipIdx_iff_getElem?.mpr hri)
  · rintro hall ⟨r, i⟩ hx
    have hri : rs[i]? = some r := List.mem_zipIdx_iff_getElem?.mp hx
    have hi : i < keep.length := hlength ▸ (List.getElem?_eq_some_iff.mp hri).1
    rcases hget i _ (List.getElem?_eq_getElem hi) with ⟨d, hd, hsame⟩
    rw [hri] at hsame
    cases hsame
    exact hall i _ d (List.getElem?_eq_getElem hi) hd

/-- A bundle of an ordinary length is sealed when the session takes messages and the draws are
there, and given back when the session does not take messages. -/
theorem msgFrame_outcome (hP : Crypto.AeadTotal P) (s : Session) (kind : Crypto.Kind)
    {body : Bytes} (hshort : body.length < 2 ^ 31) (to_ : Option String) (draw : SealDraw) :
    (s.takesMessages = false ∧ ∃ e, e.isNotSent = true ∧
        (s.msgFrame P kind body to_ draw).2 = .error e) ∨
      (s.takesMessages = true ∧ draw.msgId.isSome ∧ draw.nonce.isSome ∧
        ∃ frame, (s.msgFrame P kind body to_ draw).2 = .ok frame) ∨
      (s.takesMessages = true ∧ ¬ (draw.msgId.isSome ∧ draw.nonce.isSome) ∧
        ∃ e, e.isNotSent = false ∧ (s.msgFrame P kind body to_ draw).2 = .error e) := by
  unfold msgFrame
  by_cases hready : s.phase = .ready
  · rw [if_neg (not_not_intro hready)]
    by_cases hrefused : s.msgProbe = .refused
    · rw [if_pos hrefused]
      exact .inl ⟨by simp [takesMessages, hrefused], _, rfl, rfl⟩
    · rw [if_neg hrefused]
      have htakes : s.takesMessages = true := by simp [takesMessages, hready, hrefused]
      right
      cases hid : draw.msgId with
      | none => exact .inr ⟨htakes, fun h => (by cases h.1), .crypto .rng, rfl, rfl⟩
      | some msgId =>
      rw [Crypto.drawn_some, orFail_ok, Crypto.Msg.seal_]
      rw [if_neg (by omega)]
      cases hnonce : draw.nonce with
      | none => exact .inr ⟨htakes, fun h => (by cases h.2), .crypto .rng, rfl, rfl⟩
      | some nonce =>
      left
      refine ⟨htakes, rfl, rfl, ?_⟩
      have hplain : (Crypto.Msg.encodePlaintext kind body).length ≤ 2 ^ 32 := by
        simp only [Crypto.Msg.encodePlaintext, List.length_append, List.length_cons,
          List.length_nil, be32_length, List.length_replicate, Crypto.Msg.PAD_TO]
        omega
      rcases hP.encrypts (s.identity.encKey P s.epoch) nonce _ (Crypto.buildAad
        Crypto.PROTOCOL_VERSION Crypto.Msg.TYPE_MSG s.epoch (s.identity.roomIdBytes P) msgId)
        hplain with ⟨ciphertext, hct, -⟩
      rw [Crypto.drawn_some, Result.ok_bind, Crypto.sealTyped, hct]
      exact ⟨_, rfl⟩
  · rw [if_pos hready]
    exact .inl ⟨by simp [takesMessages, hready], _, rfl, rfl⟩

theorem ended_ok {token : UInt64} {r : Session × Except Error Message} {frame : Message}
    (h : r.2 = .ok frame) : Ended token (messageOutcome (some token) r) := by
  unfold messageOutcome
  rw [h]
  exact .inl ⟨frame, rfl⟩

theorem ended_error {token : UInt64} {r : Session × Except Error Message} {e : Error}
    (h : r.2 = .error e) : Ended token (messageOutcome (some token) r) ↔ e.isNotSent = true := by
  unfold messageOutcome
  rw [h]
  dsimp only
  split
  next hgiven => exact iff_of_true (.inr ⟨e, rfl⟩) hgiven
  next hfatal =>
    refine iff_of_false ?_ hfatal
    rintro (⟨frame, heq⟩ | ⟨reason, heq⟩) <;> cases heq

/-- Once every device to keep is known, what decides is the bundle and then the message. -/
theorem rekeyFrame_known {s : Session} {keys : Crypto.DeviceKeys} {keep : List DeviceId}
    {rs : List Crypto.Rekey.Recipient} (hkeys : s.deviceKeys = some keys)
    (hrs : s.recipients keep = some rs) (secret : Key) (nowMs : UInt64)
    (boxes : Nat → Crypto.Rekey.BoxDraw) (draw : SealDraw) :
    s.rekeyFrame P keep secret nowMs boxes draw =
      s.orFail (Crypto.Rekey.bundle P keys s.deviceId (s.identity.roomIdBytes P) nowMs rs secret
        boxes) fun body => s.msgFrame P .rekey body none draw := by
  unfold recipients at hrs
  unfold rekeyFrame
  rw [hkeys]
  dsimp only
  rw [hrs]

/-- A key change ends in a frame or is given back exactly under the condition. -/
theorem key_change_ends_iff (hP : Crypto.AeadTotal P) (s : Session) (keep : List DeviceId)
    (secret : Key) (token : UInt64) (draws : EventDraws) :
    Ended token (framesFor P s (.rekey keep secret token) draws) ↔
      s.KeyChangeEnds P keep draws := by
  show Ended token (messageOutcome (some token)
    (s.rekeyFrame P keep secret draws.nowMs draws.boxes draws.frame)) ↔ _
  cases hkeys : s.deviceKeys with
  | none =>
      have herror : (s.rekeyFrame P keep secret draws.nowMs draws.boxes draws.frame).2 =
          .error (.unsupported "this device has no keys of its own yet") := by
        rw [rekeyFrame, hkeys]
      exact iff_of_true ((ended_error herror).mpr rfl) (.inl hkeys)
  | some keys =>
  cases hrs : s.recipients keep with
  | none =>
      have herror : (s.rekeyFrame P keep secret draws.nowMs draws.boxes draws.frame).2 =
          .error (.unsupported "a device to keep has never been seen") := by
        unfold recipients at hrs
        rw [rekeyFrame, hkeys]
        dsimp only
        rw [hrs]
      exact iff_of_true ((ended_error herror).mpr rfl)
        (.inr (.inl ((recipients_none_iff s keep).mp hrs)))
  | some rs =>
  have hknown : ¬ ∃ id ∈ keep, s.known.lookup id = none := by
    rw [← recipients_none_iff, hrs]
    exact Option.some_ne_none rs
  have hcount : rs.length = keep.length := (recipients_get hrs).1
  -- the first two ways to be given back are out, so the rest of the condition decides
  have hcondition : s.KeyChangeEnds P keep draws ↔
      (∃ body, Crypto.Rekey.bundle P keys s.deviceId (s.identity.roomIdBytes P) draws.nowMs rs
        secret draws.boxes = .ok body) ∧
        (s.takesMessages = true → draws.frame.msgId.isSome ∧ draws.frame.nonce.isSome) := by
    rw [Crypto.Rekey.bundle_iff hP, usable_iff hrs, hcount, and_assoc]
    constructor
    · rintro (hnone | hunknown | hrest)
      · rw [hkeys] at hnone
        cases hnone
      · exact absurd hunknown hknown
      · exact hrest
    · exact fun hrest => .inr (.inr hrest)
  rw [hcondition, rekeyFrame_known hkeys hrs]
  cases hbundle : Crypto.Rekey.bundle P keys s.deviceId (s.identity.roomIdBytes P) draws.nowMs rs
      secret draws.boxes with
  | error e =>
      refine iff_of_false ?_ (by rintro ⟨⟨body, hbody⟩, -⟩; cases hbody)
      have hfatal : Ended token (messageOutcome (some token) (s, .error (.crypto e))) ↔
          (Error.crypto e).isNotSent = true := ended_error rfl
      exact fun hended => absurd (hfatal.mp hended) Bool.false_ne_true
  | ok body =>
  rw [orFail_ok]
  rcases msgFrame_outcome hP s .rekey (Crypto.Rekey.bundle_short hP hbundle) none draws.frame with
    ⟨htakes, e, hgiven, herror⟩ | ⟨htakes, hid, hnonce, frame, hframe⟩ |
      ⟨htakes, hdraws, e, hfatal, herror⟩
  · refine iff_of_true ((ended_error herror).mpr hgiven) ⟨⟨body, rfl⟩, fun h => ?_⟩
    rw [htakes] at h
    cases h
  · exact iff_of_true (ended_ok hframe) ⟨⟨body, rfl⟩, fun _ => ⟨hid, hnonce⟩⟩
  · refine iff_of_false ?_ fun h => hdraws (h.2 htakes)
    rw [ended_error herror, hfatal]
    exact Bool.false_ne_true

end Session

/-! ## A card whose box key is the zero point -/

namespace ZeroBoxKey

/-- With the zero point every shared secret is zero, whatever the ephemeral secret. -/
def primitives : Primitives :=
  { Session.KeptBack.primitives with
    x25519Public := fun _ => ByteArr.fill 32 9
    x25519 := fun _ boxPub => boxPub }

theorem aeadTotal : Crypto.AeadTotal primitives where
  encrypts := by
    intro key nonce message aad _
    exact ⟨message ++ List.replicate 16 0, rfl, by rw [List.length_append, List.length_replicate]⟩

def account : Crypto.Identity := ⟨ByteArr.fill 32 7⟩
def thisId : DeviceId := ByteArr.fill 16 2
def otherId : DeviceId := ByteArr.fill 16 1
def keys : Crypto.DeviceKeys := ⟨ByteArr.fill 32 8⟩

/-- A card the other device signed, with the given box key. -/
def card (boxPub : BoxPub) : Bytes :=
  Crypto.signInto primitives keys Crypto.LABEL_CARD (account.roomIdBytes primitives)
    ([1] ++ otherId.1 ++ (keys.signPub primitives).1 ++ boxPub.1 ++ be64 0 ++ [0] ++ [0] ++ [0])

/-- A session of this device that the relay has let in. -/
def ready : Session :=
  { (Session.new account thisId 0).setDeviceKeys keys with phase := .ready, connId := some "c" }

/-- The same once it has taken in the card. -/
def session (boxPub : BoxPub) : Session :=
  (ready.onCard primitives (card boxPub) 0).1

def draws : EventDraws where
  nowMs := 0
  frame := ⟨some (ByteArr.fill 16 3), some (ByteArr.fill 24 4)⟩
  card := ⟨none, none⟩
  imageId := none
  pieces := fun _ => none
  boxes := fun _ => ⟨some (ByteArr.fill 32 5), some (ByteArr.fill 24 6)⟩

/-- The card is accepted, box key and all. -/
theorem accepted : ((session (ByteArr.fill 32 0)).known.lookup otherId).map KnownDevice.boxPub =
    some (ByteArr.fill 32 0) := by
  decide +kernel

theorem pinned_box {boxPub : BoxPub} {d : KnownDevice}
    (hcard : ((session boxPub).known.lookup otherId).map KnownDevice.boxPub = some boxPub)
    (h : (session boxPub).known.lookup otherId = some d) : d.boxPub = boxPub := by
  rw [h] at hcard
  exact Option.some.inj hcard

/-- A card with a key that shares a secret, and the new key goes to its device. -/
theorem good_key_ends :
    Session.Ended 7 (framesFor primitives (session (ByteArr.fill 32 5))
      (.rekey [otherId] (ByteArr.fill 32 1) 7) draws) := by
  refine (Session.key_change_ends_iff aeadTotal _ _ _ 7 draws).mpr (.inr (.inr ⟨?_, ?_, ?_⟩))
  · decide
  · intro i id d hid hd
    cases i with
    | succ i => cases hid
    | zero =>
        cases hid
        refine ⟨_, _, rfl, rfl, ?_⟩
        rw [pinned_box (by decide +kernel) hd]
        decide
  · exact fun _ => ⟨rfl, rfl⟩

theorem rekey_fails : (framesFor primitives (session (ByteArr.fill 32 0))
    (.rekey [otherId] (ByteArr.fill 32 1) 7) draws).2 = ([], .error (.crypto .badPublicKey)) := by
  rfl

end ZeroBoxKey

/-- One card is enough for a key change to end the connection. -/
theorem zero_box_key_ends_connection :
    ¬ ∀ (P : Primitives), Crypto.AeadTotal P → ∀ (s : Session) (card : Bytes) (nowMs : UInt64)
      (keep : List DeviceId) (secret : Key) (token : UInt64) (draws : EventDraws),
      Session.Ended token (framesFor P (s.onCard P card nowMs).1 (.rekey keep secret token)
        draws) := by
  intro hclaim
  have hended := hclaim ZeroBoxKey.primitives ZeroBoxKey.aeadTotal ZeroBoxKey.ready
    (ZeroBoxKey.card (ByteArr.fill 32 0)) 0 [ZeroBoxKey.otherId] (ByteArr.fill 32 1) 7
    ZeroBoxKey.draws
  have hfails := ZeroBoxKey.rekey_fails
  unfold ZeroBoxKey.session at hfails
  rcases hended with ⟨frame, hframe⟩ | ⟨reason, hgiven⟩
  · rw [hfails] at hframe
    cases hframe
  · rw [hfails] at hgiven
    cases hgiven

end Net
end Asli
