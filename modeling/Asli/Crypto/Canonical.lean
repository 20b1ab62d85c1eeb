import Asli.Crypto.Domains
import Asli.Crypto.Plaintexts
import Asli.Crypto.ReaderAt

/-!
# Canonical — one spelling for each body

What a reader takes off the front is what its writer writes, so a decoder accepts nothing but
encodings.  An offer is the one value that can be written and not read: its encoder does not look
at the piece size, its decoder does.
-/

namespace Asli
namespace Crypto

open Logic

variable (P : Primitives)

/-! ## What a reader took -/

namespace Reader

theorem u8_ok {buf rest : Bytes} {b : UInt8} (h : u8 buf = .ok (b, rest)) : buf = b :: rest := by
  cases buf with
  | nil => cases h
  | cons first tail =>
      cases h
      rfl

theorem bytes_ok {len : Nat} {buf b rest : Bytes} (h : bytes len buf = .ok (b, rest)) :
    b.length = len ∧ buf = b ++ rest := by
  unfold bytes at h
  split at h
  · rename_i hlen
    cases h
    exact ⟨by rw [List.length_take, Nat.min_eq_left hlen], (List.take_append_drop len buf).symm⟩
  · cases h

theorem u64_ok {buf rest : Bytes} {x : UInt64} (h : u64 buf = .ok (x, rest)) :
    buf = be64 x ++ rest := by
  rcases Result.bind_ok h with ⟨⟨a, tail⟩, harray, h⟩
  cases h
  rw [array_ok harray, be64_ofBe a.2]

theorem u32_ok {buf rest : Bytes} {x : UInt32} (h : u32 buf = .ok (x, rest)) :
    buf = be32 x ++ rest := by
  rcases Result.bind_ok h with ⟨⟨a, tail⟩, harray, h⟩
  cases h
  rw [array_ok harray, be32_ofBe a.2]

theorem u16_ok {buf rest : Bytes} {x : Nat} (h : u16 buf = .ok (x, rest)) :
    x < 2 ^ 16 ∧ buf = beBytes 2 x ++ rest := by
  rcases Result.bind_ok h with ⟨⟨a, tail⟩, harray, h⟩
  cases h
  have hlt := ofBe_lt a.1
  rw [a.2] at hlt
  exact ⟨hlt, by rw [array_ok harray, beBytes_ofBe a.2]⟩

theorem flag_ok {buf rest : Bytes} {b : Bool} (h : flag buf = .ok (b, rest)) :
    buf = flagByte b :: rest := by
  rcases Result.bind_ok h with ⟨⟨byte, tail⟩, hbyte, h⟩
  rw [u8_ok hbyte]
  dsimp only at h
  split at h
  · rename_i hzero
    cases h
    rw [hzero]
    rfl
  split at h
  · rename_i hone
    cases h
    rw [hone]
    rfl
  · cases h

theorem text_ok {buf rest : Bytes} {s : String} (h : text buf = .ok (s, rest)) :
    ∃ w, writeText s = .ok w ∧ buf = w ++ rest := by
  rcases Result.bind_ok h with ⟨⟨len, tail⟩, hlen, h⟩
  dsimp only at h
  split at h
  · cases h
  rename_i hsmall
  rcases Result.bind_ok h with ⟨⟨b, left⟩, hbytes, h⟩
  dsimp only at h
  cases hutf8 : fromUtf8? b with
  | none =>
      rw [hutf8] at h
      cases h
  | some text =>
      rw [hutf8] at h
      cases h
      rcases bytes_ok hbytes with ⟨hlength, htail⟩
      rw [eq_utf8_of_fromUtf8? hutf8] at hlength htail
      have hbound := len.toNat_lt
      refine ⟨len :: utf8 s, ?_, ?_⟩
      · rw [writeText]
        rw [hlength, if_neg (by omega), if_neg hsmall, UInt8.ofNat_toNat]
      · rw [u8_ok hlen, htail]
        rfl

theorem blob_ok {buf b rest : Bytes} (h : blob buf = .ok (b, rest)) :
    ∃ w, writeBlob b = .ok w ∧ buf = w ++ rest := by
  rcases Result.bind_ok h with ⟨⟨a, tail⟩, harray, h⟩
  rcases bytes_ok h with ⟨hlength, htail⟩
  have hlt := ofBe_lt a.1
  rw [a.2] at hlt
  refine ⟨a.1 ++ b, ?_, ?_⟩
  · have hsmall : ¬ofBe a.1 ≥ 2 ^ 32 := Nat.not_le.mpr hlt
    rw [writeBlob, hlength, if_neg hsmall, be32_ofBe a.2]
  · rw [array_ok harray, htail, List.append_assoc]

theorem texts_ok {count : Nat} {buf rest : Bytes} {ss : List String}
    (h : texts count buf = .ok (ss, rest)) :
    ∃ ws, ss.length = count ∧ ss.mapM writeText = .ok ws ∧ buf = ws.flatten ++ rest := by
  induction count generalizing buf ss with
  | zero =>
      cases h
      exact ⟨[], rfl, rfl, rfl⟩
  | succ count ih =>
      rcases Result.bind_ok h with ⟨⟨s, tail⟩, htext, h⟩
      rcases Result.bind_ok h with ⟨⟨more, left⟩, htexts, h⟩
      cases h
      rcases text_ok htext with ⟨w, hw, hbuf⟩
      rcases ih htexts with ⟨ws, hcount, hws, htail⟩
      refine ⟨w :: ws, ?_, ?_, ?_⟩
      · rw [List.length_cons, hcount]
      · rw [List.mapM_cons, hw, Result.ok_bind, hws]
        rfl
      · rw [hbuf, htail, List.flatten_cons, List.append_assoc]

theorem done_ok {buf : Bytes} {u : Unit} (h : done buf = .ok u) : buf = [] := by
  unfold done at h
  split at h
  · assumption
  · cases h

end Reader

/-! ## Offers -/

namespace Direct

theorem read_ok {buf rest : Bytes} {d : Option Direct} (h : read buf = .ok (d, rest)) :
    ∃ w, write d = .ok w ∧ buf = w ++ rest := by
  rcases Result.bind_ok h with ⟨⟨count, tail⟩, hcount, h⟩
  dsimp only at h
  split at h
  · cases h
  rename_i hsmall
  split at h
  · rename_i hzero
    cases h
    exact ⟨[0], rfl, by rw [Reader.u8_ok hcount, hzero]; rfl⟩
  rename_i hsome
  rcases Result.bind_ok h with ⟨⟨addrs, left⟩, haddrs, h⟩
  rcases Result.bind_ok h with ⟨⟨sealedKey, last⟩, hkey, h⟩
  cases h
  rcases Reader.texts_ok haddrs with ⟨ws, hlength, hws, htail⟩
  rcases Reader.blob_ok hkey with ⟨w, hw, hleft⟩
  dsimp only at hleft
  have hpos : addrs ≠ [] := by
    rintro rfl
    exact hsome (UInt8.toNat_inj.mp hlength.symm)
  refine ⟨count :: (ws.flatten ++ w), ?_, ?_⟩
  · rw [write, if_neg]
    · simp only [hws, hw, Result.ok_bind, hlength, UInt8.ofNat_toNat]
      rfl
    · rw [not_or]
      exact ⟨hpos, by rw [hlength]; exact hsmall⟩
  · rw [Reader.u8_ok hcount, htail, hleft, List.cons_append, List.append_assoc]

end Direct

namespace Offer

theorem readName_ok {buf rest : Bytes} {name : String} (h : readName buf = .ok (name, rest)) :
    ∃ w, writeName name = .ok w ∧ buf = w ++ rest := by
  rcases Result.bind_ok h with ⟨⟨len, tail⟩, hlen, h⟩
  dsimp only at h
  split at h
  · cases h
  rename_i hsmall
  rcases Result.bind_ok h with ⟨⟨b, left⟩, hbytes, h⟩
  dsimp only at h
  cases hutf8 : fromUtf8? b with
  | none =>
      rw [hutf8] at h
      cases h
  | some text =>
      rw [hutf8] at h
      cases h
      rcases Reader.bytes_ok hbytes with ⟨hlength, htail⟩
      rcases Reader.u16_ok hlen with ⟨hbound, hbuf⟩
      rw [eq_utf8_of_fromUtf8? hutf8] at hlength htail
      refine ⟨beBytes 2 len ++ utf8 name, ?_, ?_⟩
      · rw [writeName]
        rw [hlength, if_neg (Nat.not_le.mpr hbound), if_neg hsmall]
      · rw [hbuf, htail, List.append_assoc]

/-- A piece size the decoder takes. -/
def Sized (o : Offer) : Prop :=
  1 ≤ o.chunkBytes.toNat ∧ o.chunkBytes.toNat ≤ CHUNK_BYTES

theorem write_of_read {u : Bytes} {o : Offer} (h : read u = .ok o) : o.write = .ok u := by
  rcases Result.bind_ok h with ⟨⟨one, r₁⟩, hversion, h⟩
  rcases Result.bind_ok h with ⟨⟨offerId, r₂⟩, hoffer, h⟩
  rcases Result.bind_ok h with ⟨⟨from_, r₃⟩, hfrom, h⟩
  rcases Result.bind_ok h with ⟨⟨to_, r₄⟩, hto, h⟩
  rcases Result.bind_ok h with ⟨⟨size, r₅⟩, hsize, h⟩
  rcases Result.bind_ok h with ⟨⟨sha256, r₆⟩, hsha, h⟩
  rcases Result.bind_ok h with ⟨⟨chunkBytes, r₇⟩, hchunk, h⟩
  rcases Result.bind_ok h with ⟨⟨tsMs, r₈⟩, hts, h⟩
  rcases Result.bind_ok h with ⟨⟨replyTo, r₉⟩, hreply, h⟩
  rcases Result.bind_ok h with ⟨⟨name, r₁₀⟩, hname, h⟩
  rcases Result.bind_ok h with ⟨⟨direct, r₁₁⟩, hdirect, h⟩
  rcases Result.bind_ok h with ⟨last, hdone, h⟩
  split at h
  · cases h
  cases h
  rcases Reader.text_ok hreply with ⟨replyBytes, hreplyBytes, hr₈⟩
  rcases readName_ok hname with ⟨nameBytes, hnameBytes, hr₉⟩
  rcases Direct.read_ok hdirect with ⟨directBytes, hdirectBytes, hr₁₀⟩
  rw [write, hnameBytes, hreplyBytes, hdirectBytes, Reader.version_ok hversion,
    Reader.array_ok hoffer, Reader.array_ok hfrom, Reader.array_ok hto, Reader.u64_ok hsize,
    Reader.array_ok hsha, Reader.u32_ok hchunk, Reader.u64_ok hts, hr₈, hr₉, hr₁₀,
    Reader.done_ok hdone, List.append_nil]
  rfl

/-- What was encoded decodes, if the piece size is one the decoder takes. -/
theorem decode_encode (hP : SignsWell P) {o : Offer} {keys : DeviceKeys} {room : RoomId}
    {body : Bytes} (h : o.encode P keys room = .ok body) :
    decode P body room (keys.signPub P) =
      if o.chunkBytes = 0 ∨ o.chunkBytes.toNat > CHUNK_BYTES then .error .innerMalformed
      else .ok o := by
  rcases Result.bind_ok h with ⟨u, hu, hsigned⟩
  cases hsigned
  have hverify : verifyBody P LABEL_OFFER room (signInto P keys LABEL_OFFER room u)
      (keys.signPub P) = .ok () := by
    rw [verifyBody, verifyTail_signInto P hP]
    rfl
  rw [decode, hverify, Result.ok_bind, signInto, unsignedPart_append]
  exact read_write hu

end Offer

/-! ## The other bodies -/

namespace Answer

theorem write_of_read {u : Bytes} {a : Answer} (h : read u = .ok a) : a.write = .ok u := by
  rcases Result.bind_ok h with ⟨⟨one, r₁⟩, hversion, h⟩
  rcases Result.bind_ok h with ⟨⟨offerId, r₂⟩, hoffer, h⟩
  rcases Result.bind_ok h with ⟨⟨from_, r₃⟩, hfrom, h⟩
  rcases Result.bind_ok h with ⟨⟨accepted, r₄⟩, haccepted, h⟩
  rcases Result.bind_ok h with ⟨⟨replyTo, r₅⟩, hreply, h⟩
  rcases Result.bind_ok h with ⟨last, hdone, h⟩
  cases h
  rcases Reader.text_ok hreply with ⟨replyBytes, hreplyBytes, hr₄⟩
  rw [write, hreplyBytes, Reader.version_ok hversion, Reader.array_ok hoffer,
    Reader.array_ok hfrom, Reader.flag_ok haccepted, hr₄, Reader.done_ok hdone, List.append_nil]
  rfl

end Answer

namespace Chunk

theorem encode_of_decode {body : Bytes} {c : Chunk} (h : decode body = .ok c) :
    c.encode = .ok body := by
  rcases Result.bind_ok h with ⟨⟨one, r₁⟩, hversion, h⟩
  rcases Result.bind_ok h with ⟨⟨offerId, r₂⟩, hoffer, h⟩
  rcases Result.bind_ok h with ⟨⟨index, r₃⟩, hindex, h⟩
  rcases Result.bind_ok h with ⟨⟨len, r₄⟩, hlen, h⟩
  dsimp only at h
  split at h
  · cases h
  rename_i hsmall
  rcases Result.bind_ok h with ⟨⟨data, r₅⟩, hdata, h⟩
  rcases Result.bind_ok h with ⟨last, hdone, h⟩
  cases h
  rcases Reader.bytes_ok hdata with ⟨hlength, hr₄⟩
  dsimp only at hdone
  have hfits : data.length ≤ CHUNK_BYTES := by
    rw [hlength]
    exact Nat.not_lt.mp hsmall
  rw [encode_of_le hfits, hlength, UInt32.ofNat_toNat, Reader.version_ok hversion,
    Reader.array_ok hoffer, Reader.u32_ok hindex, Reader.u32_ok hlen, hr₄, Reader.done_ok hdone,
    List.append_nil]

theorem decode_iff (c : Chunk) (body : Bytes) : decode body = .ok c ↔ c.encode = .ok body :=
  ⟨encode_of_decode, decode_encode⟩

end Chunk

namespace Ack

theorem readState_ok {buf rest : Bytes} {state : AckState}
    (h : readState buf = .ok (state, rest)) : buf = state.code :: rest := by
  rcases Result.bind_ok h with ⟨⟨byte, tail⟩, hbyte, h⟩
  rw [Reader.u8_ok hbyte]
  dsimp only at h
  split at h
  · rename_i hzero
    cases h
    rw [hzero]
    rfl
  split at h
  · rename_i hone
    cases h
    rw [hone]
    rfl
  split at h
  · rename_i htwo
    cases h
    rw [htwo]
    rfl
  · cases h

theorem decode_iff (a : Ack) (body : Bytes) : decode body = .ok a ↔ a.encode = body := by
  constructor
  · intro h
    rcases Result.bind_ok h with ⟨⟨one, r₁⟩, hversion, h⟩
    rcases Result.bind_ok h with ⟨⟨offerId, r₂⟩, hoffer, h⟩
    rcases Result.bind_ok h with ⟨⟨received, r₃⟩, hreceived, h⟩
    rcases Result.bind_ok h with ⟨⟨state, r₄⟩, hstate, h⟩
    rcases Result.bind_ok h with ⟨last, hdone, h⟩
    cases h
    rw [Reader.version_ok hversion, Reader.array_ok hoffer, Reader.u32_ok hreceived,
      readState_ok hstate, Reader.done_ok hdone]
    rfl
  · rintro rfl
    exact decode_encode a

end Ack

namespace Cancel

theorem decode_iff (c : Cancel) (body : Bytes) : decode body = .ok c ↔ c.encode = body := by
  constructor
  · intro h
    rcases Result.bind_ok h with ⟨⟨one, r₁⟩, hversion, h⟩
    rcases Result.bind_ok h with ⟨⟨offerId, r₂⟩, hoffer, h⟩
    rcases Result.bind_ok h with ⟨last, hdone, h⟩
    cases h
    rw [Reader.version_ok hversion, Reader.array_ok hoffer, Reader.done_ok hdone,
      List.append_nil]
    rfl
  · rintro rfl
    exact decode_encode c

end Cancel

/-! ## Signatures -/

/-- A signed body is an encoding: what a writer wrote, and a good signature of it. -/
def SignedAs (written : Except Error Bytes) (label : Bytes) (room : RoomId) (signPub : PubKey)
    (body : Bytes) : Prop :=
  ∃ (u : Bytes) (sig : Signature), written = .ok u ∧ body = u ++ sig.1 ∧
    P.edVerifyStrict signPub (signedBytes label room u) sig = true

/-- What is read behind a good signature is what was signed. -/
theorem signedAs_of_verify {α : Type} {read : Bytes → Except Error α} {value : α}
    {written : Except Error Bytes} {label : Bytes} {room : RoomId} {signPub : PubKey} {body : Bytes}
    (hwritten : ∀ u, read u = .ok value → written = .ok u)
    (hverify : verifyBody P label room body signPub = .ok ())
    (hread : read (unsignedPart body) = .ok value) :
    SignedAs P written label room signPub body := by
  rcases verifyBody_ok P hverify with ⟨u, sig, rfl, hsig⟩
  rw [unsignedPart_append] at hread
  exact ⟨u, sig, hwritten u hread, rfl, hsig⟩

theorem Offer.signedAs {o : Offer} {room : RoomId} {signPub : PubKey} {body : Bytes}
    (h : Offer.decode P body room signPub = .ok o) :
    SignedAs P o.write LABEL_OFFER room signPub body := by
  rcases Result.bind_ok h with ⟨_, hverify, hread⟩
  exact signedAs_of_verify P (fun _ => Offer.write_of_read) hverify hread

theorem Answer.signedAs {a : Answer} {room : RoomId} {signPub : PubKey} {body : Bytes}
    (h : Answer.decode P body room signPub = .ok a) :
    SignedAs P a.write LABEL_ANSWER room signPub body := by
  rcases Result.bind_ok h with ⟨_, hverify, hread⟩
  exact signedAs_of_verify P (fun _ => Answer.write_of_read) hverify hread

theorem Card.signedAs {card : Card} {room : RoomId} {body : Bytes}
    (h : Card.decode P body room = .ok card) :
    SignedAs P card.write LABEL_CARD room card.signPub body := by
  rcases Card.decode_ok P h with ⟨covered, hcovered⟩
  rcases verifyTail_ok P hcovered with ⟨sig, hbody, hsig⟩
  refine ⟨covered, sig, ?_, hbody, hsig⟩
  rcases Result.bind_ok h with ⟨⟨version, r₁⟩, hversion, h⟩
  dsimp only at h
  split at h
  · cases h
  rename_i hone
  rw [not_not] at hone
  rcases Result.bind_ok h with ⟨⟨deviceId, r₂⟩, hid, h⟩
  rcases Result.bind_ok h with ⟨⟨signPub, r₃⟩, hsignPub, h⟩
  rcases Result.bind_ok h with ⟨⟨boxPub, r₄⟩, hboxPub, h⟩
  rcases Result.bind_ok h with ⟨⟨tsMs, r₅⟩, hts, h⟩
  rcases Result.bind_ok h with ⟨⟨connId, r₆⟩, hconn, h⟩
  rcases Result.bind_ok h with ⟨⟨name, r₇⟩, hname, h⟩
  rcases Result.bind_ok h with ⟨⟨os, r₈⟩, hos, h⟩
  rcases Result.bind_ok h with ⟨⟨last, r₉⟩, hlast, h⟩
  rcases Result.bind_ok h with ⟨_, hdone, h⟩
  rcases Result.bind_ok h with ⟨_, -, h⟩
  cases h
  dsimp only at hsignPub hboxPub hts hconn hname hos hlast hdone
  rcases Reader.text_ok hconn with ⟨connBytes, hconnBytes, hr₅⟩
  rcases Reader.text_ok hname with ⟨nameBytes, hnameBytes, hr₆⟩
  rcases Reader.text_ok hos with ⟨osBytes, hosBytes, hr₇⟩
  rcases Reader.bytes_ok hlast with ⟨hlength, hr₈⟩
  -- the last field ends where the signature starts
  have hfields : body = ([1] ++ deviceId.1 ++ signPub.1 ++ boxPub.1 ++ be64 tsMs ++ connBytes ++
      nameBytes ++ osBytes) ++ last := by
    rw [Reader.u8_ok hversion, hone, Reader.array_ok hid, Reader.array_ok hsignPub,
      Reader.array_ok hboxPub, Reader.u64_ok hts, hr₅, hr₆, hr₇, hr₈, Reader.done_ok hdone,
      List.append_nil]
    simp only [List.append_assoc, List.cons_append, List.nil_append]
  rw [hbody] at hfields
  rcases List.append_inj' hfields (by rw [sig.2, hlength]) with ⟨hcover, -⟩
  rw [hcover, Card.write]
  dsimp only
  rw [hconnBytes, hnameBytes, hosBytes]
  rfl

theorem Card.decode_encode (hP : SignsWell P) {card : Card} {keys : DeviceKeys} {room : RoomId}
    {body : Bytes} (h : card.encode P keys room = .ok body) :
    Card.decode P body room = .ok card := by
  rw [Card.encode_eq] at h
  split at h
  · cases h
  rename_i hkeys
  rw [not_or, not_not, not_not] at hkeys
  rcases Result.bind_ok h with ⟨u, hu, h⟩
  cases h
  rw [signInto, Card.decode_append P hu, ← hkeys.1]
  have hverify := verifyTail_signInto P hP keys LABEL_CARD room u
  rw [signInto] at hverify
  rw [hverify]
  rfl

/-! ## All six -/

/-- Every body reads back as what it was written from, is nothing but an encoding when it is read,
and is read inside its bytes. -/
structure Canonical : Prop where
  offer_back : ∀ (o : Offer) (keys : DeviceKeys) (room : RoomId) (body : Bytes), o.Sized →
    o.encode P keys room = .ok body → Offer.decode P body room (keys.signPub P) = .ok o
  offer_only : ∀ (o : Offer) (room : RoomId) (signPub : PubKey) (body : Bytes),
    Offer.decode P body room signPub = .ok o → SignedAs P o.write LABEL_OFFER room signPub body
  answer_back : ∀ (a : Answer) (keys : DeviceKeys) (room : RoomId) (body : Bytes),
    a.encode P keys room = .ok body → Answer.decode P body room (keys.signPub P) = .ok a
  answer_only : ∀ (a : Answer) (room : RoomId) (signPub : PubKey) (body : Bytes),
    Answer.decode P body room signPub = .ok a → SignedAs P a.write LABEL_ANSWER room signPub body
  card_back : ∀ (card : Card) (keys : DeviceKeys) (room : RoomId) (body : Bytes),
    card.encode P keys room = .ok body → Card.decode P body room = .ok card
  card_only : ∀ (card : Card) (room : RoomId) (body : Bytes),
    Card.decode P body room = .ok card → SignedAs P card.write LABEL_CARD room card.signPub body
  chunk : ∀ (c : Chunk) (body : Bytes), Chunk.decode body = .ok c ↔ c.encode = .ok body
  ack : ∀ (a : Ack) (body : Bytes), Ack.decode body = .ok a ↔ a.encode = body
  cancel : ∀ (c : Cancel) (body : Bytes), Cancel.decode body = .ok c ↔ c.encode = body
  inside : ∀ (body : Bytes) (room : RoomId) (signPub : PubKey),
    Offer.decodeAt P body room signPub = some (Offer.decode P body room signPub) ∧
    Answer.decodeAt P body room signPub = some (Answer.decode P body room signPub) ∧
    Chunk.decodeAt body = some (Chunk.decode body) ∧
    Ack.decodeAt body = some (Ack.decode body) ∧
    Cancel.decodeAt body = some (Cancel.decode body) ∧
    Card.decodeAt P body room = some (Card.decode P body room)

theorem bodies_canonical (hP : SignsWell P) : Canonical P where
  offer_back := by
    rintro o keys room body ⟨hpos, hle⟩ h
    rw [Offer.decode_encode P hP h, if_neg]
    rw [not_or, Nat.not_lt]
    refine ⟨?_, hle⟩
    intro hzero
    rw [hzero] at hpos
    cases hpos
  offer_only := fun _ _ _ _ h => Offer.signedAs P h
  answer_back := fun _ _ _ _ h => Answer.decode_encode P hP h
  answer_only := fun _ _ _ _ h => Answer.signedAs P h
  card_back := fun _ _ _ _ h => Card.decode_encode P hP h
  card_only := fun _ _ _ h => Card.signedAs P h
  chunk := Chunk.decode_iff
  ack := Ack.decode_iff
  cancel := Cancel.decode_iff
  inside := fun body room signPub =>
    ⟨Offer.decodeAt_eq P body room signPub, Answer.decodeAt_eq P body room signPub,
      Chunk.decodeAt_eq body, Ack.decodeAt_eq body, Cancel.decodeAt_eq body,
      Card.decodeAt_eq P body room⟩

/-! ### An offer in pieces of no bytes -/

namespace ZeroTag

theorem signsWell : SignsWell primitives where
  valid := fun _ => rfl
  verifies := fun _ _ => beq_self_eq_true _

theorem bodies_zeroTag : Canonical primitives :=
  bodies_canonical primitives signsWell

def keys : DeviceKeys := ⟨ByteArr.fill 32 5⟩
def room : RoomId := ByteArr.fill 16 9

def offer : Offer where
  offerId := ByteArr.fill 16 3
  fromDeviceId := ByteArr.fill 16 1
  toDeviceId := ByteArr.fill 16 2
  size := 0
  sha256 := ByteArr.fill 32 0
  chunkBytes := 0
  tsMs := 0
  replyTo := ""
  name := ""
  direct := none

/-- The encoder signs it, and the decoder takes it for malformed. -/
theorem offer_unread :
    ∃ body, offer.encode primitives keys room = .ok body ∧
      Offer.decode primitives body room (keys.signPub primitives) = .error .innerMalformed := by
  have hwrite : ∃ u, offer.write = .ok u := ⟨_, rfl⟩
  rcases hwrite with ⟨u, hu⟩
  have hencode : offer.encode primitives keys room = .ok (signInto primitives keys LABEL_OFFER
      room u) := by
    rw [Offer.encode, hu]
    rfl
  have hzero : offer.chunkBytes = 0 ∨ offer.chunkBytes.toNat > CHUNK_BYTES := Or.inl rfl
  refine ⟨_, hencode, ?_⟩
  rw [Offer.decode_encode primitives signsWell hencode, if_pos hzero]

end ZeroTag

end Crypto
end Asli
