import Asli.Crypto.Canonical
import Asli.Crypto.Domains

/-!
# SealedBox — what is sealed to a device opens there, `device.rs`, `rekey.rs` and `enroll.rs`

A sealed box names a fresh public key and a nonce in front of its ciphertext.  Under what X25519 and
the AEAD document, the device it is sealed to opens it to what went in.

* `Rekey.open_bundle` — a new-key bundle hands the new key to every device it is made for, and
  nothing to any other.
* `openGrant_grant` — a grant opens, on the device whose request it answers, to the account key.
-/

namespace Asli
namespace Crypto

open Logic

variable (P : Primitives)

/-- What X25519 and XChaCha20-Poly1305 document for two parties that follow them. -/
structure BoxesWell : Prop where
  agrees : ∀ a b, P.x25519 a (P.x25519Public b) = P.x25519 b (P.x25519Public a)
  opens : ∀ key nonce message aad ciphertext,
    P.aeadEncrypt key nonce message aad = some ciphertext →
      P.aeadDecrypt key nonce ciphertext aad = some message
  tagged : ∀ key nonce message aad ciphertext,
    P.aeadEncrypt key nonce message aad = some ciphertext →
      ciphertext.length = message.length + TAG_LEN

variable {P}

/-- A box that was sealed is laid out as public key, nonce, ciphertext. -/
theorem sealBox_ok {eph : Option Key} {nonce : Option Nonce} {recipient : BoxPub}
    {label plaintext sealed : Bytes}
    (h : sealBox P eph nonce recipient label plaintext = .ok sealed) :
    ∃ e n ciphertext, eph = some e ∧ nonce = some n ∧
      contributory (P.x25519 e recipient) = true ∧
      P.aeadEncrypt (boxKey P (P.x25519 e recipient) (P.x25519Public e) recipient label) n plaintext
        label = some ciphertext ∧
      sealed = (P.x25519Public e).1 ++ (n.1 ++ ciphertext) := by
  cases eph with
  | none => cases h
  | some e =>
  cases nonce with
  | none => cases h
  | some n =>
  simp only [sealBox, drawn_some, Result.ok_bind] at h
  split at h
  · cases h
  rename_i hcontributory
  split at h
  · cases h
  rename_i ciphertext hencrypt
  cases h
  refine ⟨e, n, ciphertext, rfl, rfl, ?_, hencrypt, List.append_assoc _ _ _⟩
  rwa [Bool.not_eq_true', Bool.not_eq_false] at hcontributory

/-- The device a box is sealed to opens it. -/
theorem DeviceKeys.openBox_sealBox (hbox : BoxesWell P) {eph : Option Key} {nonce : Option Nonce}
    {keys : DeviceKeys} {label plaintext sealed : Bytes}
    (h : sealBox P eph nonce (keys.boxPub P) label plaintext = .ok sealed) :
    keys.openBox P label sealed = .ok plaintext := by
  rcases sealBox_ok h with ⟨e, n, ciphertext, -, -, hcontributory, hencrypt, rfl⟩
  have hshared : P.x25519 (keys.boxSecret P) (P.x25519Public e) = P.x25519 e (keys.boxPub P) :=
    hbox.agrees _ _
  have hlength := hbox.tagged _ _ _ _ _ hencrypt
  have hlong : ¬ ((P.x25519Public e).1 ++ (n.1 ++ ciphertext)).length < SEALED_BOX_OVERHEAD := by
    rw [List.length_append, List.length_append, (P.x25519Public e).2, n.2, hlength,
      SEALED_BOX_OVERHEAD]
    omega
  have heph : ((P.x25519Public e).1 ++ (n.1 ++ ciphertext)).take BOX_PUB_LEN =
      (P.x25519Public e).1 := List.take_left' (P.x25519Public e).2
  have hrest : ((P.x25519Public e).1 ++ (n.1 ++ ciphertext)).drop BOX_PUB_LEN =
      n.1 ++ ciphertext := List.drop_left' (P.x25519Public e).2
  have hnonce : (n.1 ++ ciphertext).take NONCE_LEN = n.1 := List.take_left' n.2
  have hciphertext : ((P.x25519Public e).1 ++ (n.1 ++ ciphertext)).drop (BOX_PUB_LEN + NONCE_LEN) =
      ciphertext := by
    rw [← List.drop_drop, hrest]
    exact List.drop_left' n.2
  rw [openBox, if_neg hlong, heph, hrest, hnonce, hciphertext, ByteArr.ofBytes?_val,
    ByteArr.ofBytes?_val]
  simp only [hshared, hcontributory, hbox.opens _ _ _ _ _ hencrypt, Bool.not_true,
    Bool.false_eq_true, if_false]

/-! ## New-key bundles -/

namespace Rekey

/-- The boxes of a bundle, each sealed to the recipient it stands for. -/
theorem sealBoxes_forall₂ {recipients : List Recipient} {newSecret : Key} {draws : Nat → BoxDraw}
    {boxes : List (DeviceId × Bytes)}
    (h : sealBoxes P recipients newSecret draws = .ok boxes) :
    List.Forall₂ (fun r box => box.1 = r.deviceId ∧
      ∃ draw : BoxDraw, sealBox P draw.eph draw.nonce r.boxPub LABEL_REKEY (1 :: newSecret.1) =
        .ok box.2) recipients boxes := by
  have hround := Result.mapM_ok_iff.mp h
  rw [List.forall₂_iff_get] at hround ⊢
  rcases hround with ⟨hlength, hround⟩
  have hsame : recipients.length = boxes.length := by rw [← hlength, List.length_zipIdx]
  refine ⟨hsame, ?_⟩
  intro i hi hi'
  have hi'' : i < recipients.zipIdx.length := by rwa [List.length_zipIdx]
  rcases Result.bind_ok (hround i hi'' hi') with ⟨sealed, hseal, hpair⟩
  simp only [List.get_eq_getElem, List.getElem_zipIdx, Nat.zero_add] at hseal hpair ⊢
  rw [← Except.ok.inj hpair]
  exact ⟨rfl, draws i, hseal⟩

/-- A box is found for a device exactly when one is addressed to it. -/
theorem boxFor_cases (b : Bundle) (deviceId : DeviceId) :
    (b.boxFor deviceId = none ∧ deviceId ∉ b.recipients) ∨
      ∃ box ∈ b.boxes, box.1 = deviceId ∧ b.boxFor deviceId = some box.2 := by
  rcases b with ⟨fromDeviceId, tsMs, boxes⟩
  induction boxes using List.reverseRecOn with
  | nil => exact .inl ⟨rfl, List.not_mem_nil⟩
  | append_singleton boxes box ih =>
      have hlast : Bundle.boxFor ⟨fromDeviceId, tsMs, boxes ++ [box]⟩ deviceId =
          if box.1 = deviceId then some box.2
          else Bundle.boxFor ⟨fromDeviceId, tsMs, boxes⟩ deviceId := by
        rw [Bundle.boxFor, List.foldl_append]
        rfl
      rw [hlast]
      by_cases hbox : box.1 = deviceId
      · rw [if_pos hbox]
        exact .inr ⟨box, List.mem_append_right _ List.mem_cons_self, hbox, rfl⟩
      · rw [if_neg hbox]
        rcases ih with ⟨hnone, hnot⟩ | ⟨found, hmem, hid, hsome⟩
        · refine .inl ⟨hnone, ?_⟩
          rw [Bundle.recipients, List.map_append, List.mem_append, not_or]
          refine ⟨hnot, ?_⟩
          rw [List.map_singleton, List.mem_singleton]
          exact fun h => hbox h.symm
        · exact .inr ⟨found, List.mem_append_left _ hmem, hid, hsome⟩

/-- The box a device finds opens to the new key, when the bundle was made for its box key. -/
theorem openEntry_sealBox (hbox : BoxesWell P) {keys : DeviceKeys} {newSecret : Key}
    {draw : BoxDraw} {sealed : Bytes}
    (h : sealBox P draw.eph draw.nonce (keys.boxPub P) LABEL_REKEY (1 :: newSecret.1) =
      .ok sealed) :
    openEntry P keys sealed = .ok newSecret := by
  rw [openEntry, keys.openBox_sealBox hbox h, Result.ok_bind]
  simp only [ByteArr.ofBytes?_val]
  rfl

/-- A bundle hands the new key to each device it is made for, and to no other. -/
theorem open_bundle (hsign : SignsWell P) (hbox : BoxesWell P) {maker keys : DeviceKeys}
    {fromDeviceId deviceId : DeviceId} {oldRoom : RoomId} {tsMs : UInt64}
    {recipients : List Recipient} {newSecret : Key} {draws : Nat → BoxDraw} {body : Bytes}
    (hmade : bundle P maker fromDeviceId oldRoom tsMs recipients newSecret draws = .ok body)
    (hkeys : ∀ r ∈ recipients, r.deviceId = deviceId → r.boxPub = keys.boxPub P) :
    open_ P keys deviceId oldRoom (maker.signPub P) body =
      .ok (if deviceId ∈ recipients.map Recipient.deviceId then
        some ⟨fromDeviceId, tsMs, newSecret, recipients.map Recipient.deviceId⟩ else none) := by
  rcases bundle_ok P hmade with ⟨boxes, entries, hseal, hwrite, hcount, rfl⟩
  have hboxes := sealBoxes_forall₂ hseal
  have hids : boxes.map Prod.fst = recipients.map Recipient.deviceId := by
    have hsame : List.Forall₂ (fun id r => id = Recipient.deviceId r)
        (boxes.map Prod.fst) recipients := by
      rw [List.forall₂_map_left_iff]
      exact hboxes.flip.imp fun _ _ h => h.1
    rw [← List.forall₂_eq_eq_eq, List.forall₂_map_right_iff]
    exact hsame
  rw [open_eq, verifyTail_signInto P hsign, Result.ok_bind, readBundle_bytes hwrite hcount,
    Result.ok_bind]
  rcases boxFor_cases ⟨fromDeviceId, tsMs, boxes⟩ deviceId with
    ⟨hnone, hnot⟩ | ⟨box, hmem, hid, hsome⟩
  · rw [Bundle.recipients, hids] at hnot
    rw [hnone, if_neg hnot]
    rfl
  · -- the recipient the found box stands for is this device
    rcases List.forall₂_iff_get.mp hboxes with ⟨hlength, hall⟩
    rcases List.mem_iff_get.mp hmem with ⟨i, rfl⟩
    have hi : i.1 < recipients.length := lt_of_lt_of_eq i.2 hlength.symm
    rcases hall i.1 hi i.2 with ⟨haddressed, draw, hsealed⟩
    have hr := hkeys (recipients.get ⟨i.1, hi⟩) (List.get_mem _ _) (haddressed.symm.trans hid)
    rw [hr] at hsealed
    have hlisted : deviceId ∈ recipients.map Recipient.deviceId := by
      rw [← hids, ← hid]
      exact List.mem_map_of_mem hmem
    rw [hsome, if_pos hlisted, ← hids]
    show (openEntry P keys _ >>= _) = _
    rw [openEntry_sealBox hbox hsealed]
    rfl

end Rekey

/-! ### A cipher that adds sixteen zeros, and one shared secret -/

namespace OneSecret

def primitives : Primitives :=
  { ZeroTag.primitives with x25519 := fun _ _ => ByteArr.fill 32 1 }

theorem signsWell : SignsWell primitives where
  valid := fun _ => rfl
  verifies := fun _ _ => beq_self_eq_true _

theorem boxesWell : BoxesWell primitives where
  agrees := fun _ _ => rfl
  opens := by
    rintro key nonce message aad ciphertext ⟨⟩
    show some _ = some message
    rw [List.length_append, List.length_replicate, Nat.add_sub_cancel, List.take_left]
  tagged := by
    rintro key nonce message aad ciphertext ⟨⟩
    rw [List.length_append, List.length_replicate]

def maker : DeviceKeys := ⟨ByteArr.fill 32 1⟩
def draws : Nat → Rekey.BoxDraw := fun _ => ⟨some (ByteArr.fill 32 2), some (ByteArr.fill 24 3)⟩

/-- The two devices that keep the account. -/
def kept : List Rekey.Recipient :=
  [⟨ByteArr.fill 16 1, maker.boxPub primitives⟩, ⟨ByteArr.fill 16 2, maker.boxPub primitives⟩]

theorem bundled : ∃ body, Rekey.bundle primitives maker (ByteArr.fill 16 1) (ByteArr.fill 16 9) 7
    kept (ByteArr.fill 32 8) draws = .ok body :=
  ⟨_, rfl⟩

end OneSecret

theorem Rekey.open_bundle_kept :
    ∃ body, Rekey.open_ OneSecret.primitives OneSecret.maker (ByteArr.fill 16 2)
        (ByteArr.fill 16 9) (OneSecret.maker.signPub OneSecret.primitives) body =
      .ok (if ByteArr.fill 16 2 ∈ OneSecret.kept.map Recipient.deviceId then
        some ⟨ByteArr.fill 16 1, 7, ByteArr.fill 32 8, OneSecret.kept.map Recipient.deviceId⟩
      else none) := by
  rcases OneSecret.bundled with ⟨body, hmade⟩
  refine ⟨body, Rekey.open_bundle OneSecret.signsWell OneSecret.boxesWell hmade ?_⟩
  intro r hr _
  rcases List.mem_cons.mp hr with rfl | hr
  · rfl
  · rw [List.mem_singleton.mp hr]

/-! ## The three messages of a join -/

theorem verifyBody_signInto (hsign : SignsWell P) (keys : DeviceKeys) (label : Bytes)
    (room : RoomId) (body : Bytes) :
    verifyBody P label room (signInto P keys label room body) (keys.signPub P) = .ok () := by
  rw [verifyBody, verifyTail_signInto P hsign]
  rfl

/-- A request is read as it was made. -/
theorem JoinRequest.decode_encode (hsign : SignsWell P) {request : JoinRequest} {keys : DeviceKeys}
    {room : RoomId} {body : Bytes} (h : request.encode P keys room = .ok body) :
    JoinRequest.decode P body room = .ok request := by
  unfold JoinRequest.encode at h
  split at h
  · cases h
  rename_i hkeys
  push Not at hkeys
  rcases Result.bind_ok h with ⟨u, hwrite, hbody⟩
  cases hbody
  have hverify := verifyBody_signInto hsign keys LABEL_REQUEST room u
  rw [signInto] at hverify ⊢
  rw [JoinRequest.decode_append P hwrite, ← hkeys.1, hverify]
  rfl

/-- What a grant is made of, and what its reader finds. -/
theorem grant_ok {approver : DeviceKeys} {room : RoomId} {request : JoinRequest}
    {accountSecret : Key} {neverExported : Bool} {draw : Rekey.BoxDraw} {body : Bytes}
    (h : grant P approver room request accountSecret neverExported draw = .ok body) :
    ∃ sealed u, sealBox P draw.eph draw.nonce request.boxPub LABEL_GRANT
          (grantInner accountSecret neverExported) = .ok sealed ∧
      Grant.write ⟨request.requestId, request.signPub, approver.signPub P, sealed⟩ = .ok u ∧
      body = signInto P approver LABEL_GRANT room u := by
  rcases Result.bind_ok h with ⟨fields, hfields, hrest⟩
  rcases Result.bind_ok hfields with ⟨sealed, hseal, hpure⟩
  rcases Result.bind_ok hrest with ⟨u, hwrite, hbody⟩
  cases hpure
  cases hbody
  exact ⟨sealed, u, hseal, hwrite, rfl⟩

/-- A grant opens, on the device whose request it answers, to the account key. -/
theorem openGrant_grant (hsign : SignsWell P) (hbox : BoxesWell P) {approver keys : DeviceKeys}
    {code : JoinCode} {room : RoomId} {request : JoinRequest} {accountSecret : Key}
    {neverExported : Bool} {draw : Rekey.BoxDraw} {body : Bytes}
    (hcode : code.madeBy P (approver.signPub P) = true)
    (hsignPub : request.signPub = keys.signPub P) (hboxPub : request.boxPub = keys.boxPub P)
    (h : grant P approver room request accountSecret neverExported draw = .ok body) :
    openGrant P code room keys request.requestId body = .ok ⟨accountSecret, neverExported⟩ := by
  rcases grant_ok h with ⟨sealed, u, hseal, hwrite, rfl⟩
  have hverify := verifyBody_signInto hsign approver LABEL_GRANT room u
  have hread := Grant.read_append hwrite (approver.sign P (signedBytes LABEL_GRANT room u))
  rw [hboxPub] at hseal
  rw [openGrant, signInto, hread, Result.ok_bind]
  simp only [hcode, hsignPub, Bool.not_true, Bool.false_eq_true, ne_eq, not_true_eq_false, or_self,
    if_false]
  rw [← signInto, hverify, Result.ok_bind, keys.openBox_sealBox hbox hseal, Result.ok_bind,
    readGranted_grantInner]

/-- A decline is taken for one by the device whose request it turns down. -/
theorem isDeclineFor_decline (hsign : SignsWell P) {approver : DeviceKeys} {code : JoinCode}
    {room : RoomId} {requestId : RequestId} {body : Bytes}
    (hcode : code.madeBy P (approver.signPub P) = true)
    (h : decline P approver room requestId = .ok body) :
    isDeclineFor P code room requestId body = true := by
  cases h
  have hverify := verifyBody_signInto hsign approver LABEL_DECLINE room
    (Decline.write ⟨requestId, approver.signPub P⟩)
  rw [isDeclineFor, signInto, Decline.read_append, Result.ok_bind, ← signInto, hverify,
    Result.ok_bind]
  simp only [hcode, beq_self_eq_true, Bool.and_true]
  rfl

end Crypto
end Asli
