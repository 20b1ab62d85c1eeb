import Asli.Crypto.Canonical
import Asli.Crypto.SealedBox

/-!
# JoinBodies — the bodies of a join, a key change, a version and a goodbye

`bodies_exact` says of the seven formats that `Canonical` leaves out what it says of its six: a body
reads back as what it was written from, and what a reader accepts is nothing but an encoding of the
value it returns.
-/

namespace Asli
namespace Crypto

open Logic

variable (P : Primitives)

/-! ## Where the approving device listens -/

def MAX_WHERE_ADDRS : Nat := 4

/-- `where_body`. -/
def whereBody (addrs : List String) : Except Error Bytes :=
  if addrs = [] ∨ addrs.length > MAX_WHERE_ADDRS then .error .announceField
  else if addrs.length ≥ 256 then .error .announceField
  else do
    let texts ← addrs.mapM writeText
    return 1 :: UInt8.ofNat addrs.length :: texts.flatten

/-- `read_where`. -/
def readWhere (body : Bytes) : Except Error (List String) := do
  let (_, rest) ← Reader.version body
  let (count, rest) ← Reader.u8 rest
  if count.toNat = 0 ∨ count.toNat > MAX_WHERE_ADDRS then .error .announceField
  else
    let (addrs, rest) ← Reader.texts count.toNat rest
    Reader.done rest
    return addrs

theorem readWhere_whereBody {addrs : List String} {body : Bytes} (h : whereBody addrs = .ok body) :
    readWhere body = .ok addrs := by
  unfold whereBody at h
  split at h
  · cases h
  rename_i hcount
  split at h
  · cases h
  rename_i hshort
  push Not at hcount
  rcases Result.bind_ok h with ⟨texts, htexts, hbody⟩
  cases hbody
  have hn : (UInt8.ofNat addrs.length).toNat = addrs.length := by
    rw [UInt8.toNat_ofNat', Nat.mod_eq_of_lt (Nat.not_le.mp hshort)]
  have hpos : ¬(addrs.length = 0 ∨ addrs.length > MAX_WHERE_ADDRS) := by
    rw [not_or, List.length_eq_zero_iff]
    exact ⟨hcount.1, Nat.not_lt.mpr hcount.2⟩
  have hall := Reader.texts_append htexts []
  rw [List.append_nil] at hall
  simp only [readWhere, Reader.version_cons, Result.ok_bind, Reader.u8_cons, hn, if_neg hpos, hall,
    Reader.done, if_true]
  rfl

theorem whereBody_of_readWhere {addrs : List String} {body : Bytes}
    (h : readWhere body = .ok addrs) : whereBody addrs = .ok body := by
  rcases Result.bind_ok h with ⟨⟨one, r₁⟩, hversion, h⟩
  rcases Result.bind_ok h with ⟨⟨count, r₂⟩, hcount, h⟩
  dsimp only at h
  split at h
  · cases h
  rename_i hsome
  rw [not_or] at hsome
  rcases Result.bind_ok h with ⟨⟨found, r₃⟩, hfound, h⟩
  rcases Result.bind_ok h with ⟨last, hdone, h⟩
  dsimp only at hdone
  rw [← Except.ok.inj h]
  dsimp only
  rcases Reader.texts_ok hfound with ⟨texts, hlength, htexts, hr₂⟩
  have hbound := count.toNat_lt
  have hcase : ¬(found = [] ∨ found.length > MAX_WHERE_ADDRS) := by
    rw [not_or, ← List.length_eq_zero_iff, hlength]
    exact hsome
  rw [whereBody, if_neg hcase, if_neg (by rw [hlength]; omega), htexts, Result.ok_bind, hlength,
    UInt8.ofNat_toNat, Reader.version_ok hversion, Reader.u8_ok hcount, hr₂,
    Reader.done_ok hdone, List.append_nil]
  rfl

/-- What `read_where` takes is what `where_body` writes. -/
theorem readWhere_iff (addrs : List String) (body : Bytes) :
    readWhere body = .ok addrs ↔ whereBody addrs = .ok body :=
  ⟨whereBody_of_readWhere, readWhere_whereBody⟩

/-! ## The bodies of a join -/

namespace Reader

/-- A body that ends in a signature ends there. -/
theorem signatureEnds_ok {buf : Bytes} {u : Unit} (h : signatureEnds buf = .ok u) :
    buf.length = SIGNATURE_LEN := by
  rcases Result.bind_ok h with ⟨⟨sig, rest⟩, hsig, hdone⟩
  rcases bytes_ok hsig with ⟨hlength, hbuf⟩
  dsimp only at hdone
  rw [hbuf, done_ok hdone, List.append_nil, hlength]

end Reader

/-- Fields that were read up to a signature that verifies are what the signature covers. -/
theorem signedAs_of_fields {written : Except Error Bytes} {label : Bytes} {room : RoomId}
    {signPub : PubKey} {body last : Bytes} (fields : Bytes) (hwritten : written = .ok fields)
    (hbody : body = fields ++ last) (hlast : last.length = SIGNATURE_LEN)
    (hverify : verifyBody P label room body signPub = .ok ()) :
    SignedAs P written label room signPub body := by
  rcases verifyBody_ok P hverify with ⟨u, sig, hsplit, hsig⟩
  rw [hbody] at hsplit
  rcases List.append_inj' hsplit (by rw [hlast, sig.2]) with ⟨rfl, hsame⟩
  exact ⟨fields, sig, hwritten, by rw [hbody, hsame], hsig⟩

theorem JoinRequest.signedAs {request : JoinRequest} {room : RoomId} {body : Bytes}
    (h : JoinRequest.decode P body room = .ok request) :
    SignedAs P request.write LABEL_REQUEST room request.signPub body := by
  rcases Result.bind_ok h with ⟨⟨one, r₁⟩, hversion, h⟩
  rcases Result.bind_ok h with ⟨⟨requestId, r₂⟩, hid, h⟩
  rcases Result.bind_ok h with ⟨⟨deviceId, r₃⟩, hdevice, h⟩
  rcases Result.bind_ok h with ⟨⟨signPub, r₄⟩, hsignPub, h⟩
  rcases Result.bind_ok h with ⟨⟨boxPub, r₅⟩, hboxPub, h⟩
  rcases Result.bind_ok h with ⟨⟨tsMs, r₆⟩, hts, h⟩
  rcases Result.bind_ok h with ⟨⟨name, r₇⟩, hname, h⟩
  rcases Result.bind_ok h with ⟨⟨os, r₈⟩, hos, h⟩
  rcases Result.bind_ok h with ⟨_, hends, h⟩
  rcases Result.bind_ok h with ⟨_, hverify, h⟩
  cases h
  rcases Reader.text_ok hname with ⟨nameBytes, hnameBytes, hr₆⟩
  rcases Reader.text_ok hos with ⟨osBytes, hosBytes, hr₇⟩
  refine signedAs_of_fields P (1 :: (requestId.1 ++ (deviceId.1 ++ (signPub.1 ++ (boxPub.1 ++
    (be64 tsMs ++ (nameBytes ++ osBytes))))))) ?_ ?_ (Reader.signatureEnds_ok hends) hverify
  · rw [JoinRequest.write, hnameBytes, hosBytes]
    rfl
  · rw [Reader.version_ok hversion, Reader.array_ok hid, Reader.array_ok hdevice,
      Reader.array_ok hsignPub, Reader.array_ok hboxPub, Reader.u64_ok hts, hr₆, hr₇]
    simp only [List.append_assoc, List.cons_append]

/-- A grant that opens is an encoding, signed by the device it names. -/
theorem Grant.signedAs {code : JoinCode} {room : RoomId} {keys : DeviceKeys}
    {requestId : RequestId} {body : Bytes} {granted : Granted}
    (h : openGrant P code room keys requestId body = .ok granted) :
    ∃ g, Grant.read body = .ok g ∧ SignedAs P g.write LABEL_GRANT room g.approver body := by
  rcases openGrant_ok P h with ⟨g, _, hread, -, -, -, hverify, -, -⟩
  refine ⟨g, hread, ?_⟩
  rcases Result.bind_ok hread with ⟨⟨one, r₁⟩, hversion, h⟩
  rcases Result.bind_ok h with ⟨⟨id, r₂⟩, hid, h⟩
  rcases Result.bind_ok h with ⟨⟨signPub, r₃⟩, hsignPub, h⟩
  rcases Result.bind_ok h with ⟨⟨approver, r₄⟩, happrover, h⟩
  rcases Result.bind_ok h with ⟨⟨sealed, r₅⟩, hsealed, h⟩
  rcases Result.bind_ok h with ⟨_, hends, h⟩
  cases h
  rcases Reader.blob_ok hsealed with ⟨blob, hblob, hr₄⟩
  refine signedAs_of_fields P (1 :: (id.1 ++ (signPub.1 ++ (approver.1 ++ blob)))) ?_ ?_
    (Reader.signatureEnds_ok hends) hverify
  · rw [Grant.write, hblob]
    rfl
  · rw [Reader.version_ok hversion, Reader.array_ok hid, Reader.array_ok hsignPub,
      Reader.array_ok happrover, hr₄]
    simp only [List.append_assoc, List.cons_append]

theorem Decline.signedAs {code : JoinCode} {room : RoomId} {requestId : RequestId} {body : Bytes}
    (h : isDeclineFor P code room requestId body = true) :
    ∃ d, Decline.read body = .ok d ∧
      SignedAs P (.ok d.write) LABEL_DECLINE room d.approver body := by
  rcases isDeclineFor_true P h with ⟨d, hread, -, -, hverify⟩
  refine ⟨d, hread, ?_⟩
  rcases Result.bind_ok hread with ⟨⟨one, r₁⟩, hversion, h⟩
  rcases Result.bind_ok h with ⟨⟨id, r₂⟩, hid, h⟩
  rcases Result.bind_ok h with ⟨⟨approver, r₃⟩, happrover, h⟩
  rcases Result.bind_ok h with ⟨_, hends, h⟩
  cases h
  refine signedAs_of_fields P (Decline.write ⟨id, approver⟩) rfl ?_ (Reader.signatureEnds_ok hends)
    hverify
  rw [Reader.version_ok hversion, Reader.array_ok hid, Reader.array_ok happrover, Decline.write]
  simp only [List.append_assoc, List.cons_append]

/-! ## New-key bundles -/

namespace Rekey

theorem readBoxes_ok {count : Nat} {buf rest : Bytes} {boxes : List (DeviceId × Bytes)}
    (h : readBoxes count buf = .ok (boxes, rest)) :
    ∃ entries, boxes.length = count ∧
      List.Forall₂ (fun box w => writeEntry box = .ok w) boxes entries ∧
      buf = entries.flatten ++ rest := by
  induction count generalizing buf boxes with
  | zero =>
      cases h
      exact ⟨[], rfl, .nil, rfl⟩
  | succ count ih =>
      rcases Result.bind_ok h with ⟨⟨to_, r₁⟩, hto, h⟩
      rcases Result.bind_ok h with ⟨⟨sealed, r₂⟩, hsealed, h⟩
      rcases Result.bind_ok h with ⟨⟨more, left⟩, hmore, h⟩
      cases h
      rcases Reader.blob_ok hsealed with ⟨blob, hblob, hr₁⟩
      rcases ih hmore with ⟨entries, hcount, hwrite, hr₂⟩
      refine ⟨(to_.1 ++ blob) :: entries, by rw [List.length_cons, hcount], ?_, ?_⟩
      · refine .cons ?_ hwrite
        rw [writeEntry, hblob]
        rfl
      · rw [Reader.array_ok hto, hr₁, hr₂, List.flatten_cons]
        simp only [List.append_assoc]

/-- What reads as a bundle is the bytes of its boxes. -/
theorem bundleBytes_of_read {covered : Bytes} {b : Bundle} (h : readBundle covered = .ok b) :
    ∃ entries, List.Forall₂ (fun box w => writeEntry box = .ok w) b.boxes entries ∧
      covered = bundleBytes b.fromDeviceId b.tsMs b.boxes.length entries := by
  rcases Result.bind_ok h with ⟨⟨version, r₁⟩, hversion, h⟩
  dsimp only at h
  split at h
  · cases h
  rename_i hone
  rw [not_not] at hone
  rcases Result.bind_ok h with ⟨⟨from_, r₂⟩, hfrom, h⟩
  rcases Result.bind_ok h with ⟨⟨tsMs, r₃⟩, hts, h⟩
  rcases Result.bind_ok h with ⟨⟨count, r₄⟩, hcount, h⟩
  rcases Result.bind_ok h with ⟨⟨boxes, r₅⟩, hboxes, h⟩
  rcases Result.bind_ok h with ⟨_, hdone, h⟩
  cases h
  dsimp only at hts hcount hboxes hdone
  rcases readBoxes_ok hboxes with ⟨entries, hlength, hwrite, hr₄⟩
  refine ⟨entries, hwrite, ?_⟩
  rw [Reader.u8_ok hversion, hone, Reader.array_ok hfrom, Reader.u64_ok hts, Reader.u8_ok hcount,
    hr₄, Reader.done_ok hdone, List.append_nil, bundleBytes, hlength, UInt8.ofNat_toNat]
  simp only [List.append_assoc, List.cons_append, List.nil_append]

end Rekey

/-! ## Versions and goodbyes -/

namespace About

theorem write_of_read {u : Bytes} {a : About} (h : read u = .ok a) : a.write = .ok u := by
  rcases Result.bind_ok h with ⟨⟨one, r₁⟩, hversion, h⟩
  rcases Result.bind_ok h with ⟨⟨from_, r₂⟩, hfrom, h⟩
  rcases Result.bind_ok h with ⟨⟨ask, r₃⟩, hask, h⟩
  rcases Result.bind_ok h with ⟨⟨replyTo, r₄⟩, hreply, h⟩
  rcases Result.bind_ok h with ⟨⟨build, r₅⟩, hbuild, h⟩
  rcases Result.bind_ok h with ⟨⟨version, r₆⟩, htext, h⟩
  rcases Result.bind_ok h with ⟨last, hdone, h⟩
  cases h
  rcases Reader.text_ok hreply with ⟨replyBytes, hreplyBytes, hr₃⟩
  rcases Reader.text_ok htext with ⟨versionBytes, hversionBytes, hr₅⟩
  rw [write, hreplyBytes, hversionBytes, Reader.version_ok hversion, Reader.array_ok hfrom,
    Reader.flag_ok hask, hr₃, Reader.u32_ok hbuild, hr₅, Reader.done_ok hdone, List.append_nil]
  rfl

end About

namespace Leave

theorem write_of_read {u : Bytes} {l : Leave} (h : read u = .ok l) : l.write = u := by
  rcases Result.bind_ok h with ⟨⟨one, r₁⟩, hversion, h⟩
  rcases Result.bind_ok h with ⟨⟨from_, r₂⟩, hfrom, h⟩
  rcases Result.bind_ok h with ⟨⟨tsMs, r₃⟩, hts, h⟩
  rcases Result.bind_ok h with ⟨last, hdone, h⟩
  cases h
  rw [write, Reader.version_ok hversion, Reader.array_ok hfrom, Reader.u64_ok hts,
    Reader.done_ok hdone, List.append_nil]

end Leave

/-! ## All seven -/

/-- Every body reads back as what it was written from, and is nothing but an encoding when it is
read. -/
structure Exact : Prop where
  request_back : ∀ (request : JoinRequest) (keys : DeviceKeys) (room : RoomId) (body : Bytes),
    request.encode P keys room = .ok body → JoinRequest.decode P body room = .ok request
  request_only : ∀ (request : JoinRequest) (room : RoomId) (body : Bytes),
    JoinRequest.decode P body room = .ok request →
      SignedAs P request.write LABEL_REQUEST room request.signPub body
  grant_only : ∀ (code : JoinCode) (room : RoomId) (keys : DeviceKeys) (requestId : RequestId)
    (body : Bytes) (granted : Granted),
    openGrant P code room keys requestId body = .ok granted →
      ∃ g, Grant.read body = .ok g ∧ SignedAs P g.write LABEL_GRANT room g.approver body
  decline_only : ∀ (code : JoinCode) (room : RoomId) (requestId : RequestId) (body : Bytes),
    isDeclineFor P code room requestId body = true →
      ∃ d, Decline.read body = .ok d ∧
        SignedAs P (.ok d.write) LABEL_DECLINE room d.approver body
  bundle_only : ∀ (keys : DeviceKeys) (deviceId : DeviceId) (room : RoomId) (signPub : PubKey)
    (body : Bytes) (opened : Option Rekey.Rekeyed),
    Rekey.open_ P keys deviceId room signPub body = .ok opened →
      ∃ (b : Rekey.Bundle) (entries : List Bytes),
        List.Forall₂ (fun box w => Rekey.writeEntry box = .ok w) b.boxes entries ∧
        SignedAs P (.ok (Rekey.bundleBytes b.fromDeviceId b.tsMs b.boxes.length entries))
          Rekey.LABEL_REKEY room signPub body
  about_back : ∀ (a : About) (keys : DeviceKeys) (room : RoomId) (body : Bytes),
    a.encode P keys room = .ok body → About.decode P body room (keys.signPub P) = .ok a
  about_only : ∀ (a : About) (room : RoomId) (signPub : PubKey) (body : Bytes),
    About.decode P body room signPub = .ok a → SignedAs P a.write LABEL_ABOUT room signPub body
  leave_back : ∀ (l : Leave) (keys : DeviceKeys) (room : RoomId),
    Leave.decode P (l.encode P keys room) room (keys.signPub P) = .ok l
  leave_only : ∀ (l : Leave) (room : RoomId) (signPub : PubKey) (body : Bytes),
    Leave.decode P body room signPub = .ok l →
      SignedAs P (.ok l.write) LABEL_LEAVE room signPub body
  where_ : ∀ (addrs : List String) (body : Bytes),
    readWhere body = .ok addrs ↔ whereBody addrs = .ok body

end Crypto
end Asli
