import Asli.Relay.Config
import Asli.Relay.Validate
import Asli.Crypto.Plaintexts
import Asli.Net.RekeyFrame
import Asli.Net.FrameSize
import Asli.Logic.Utf8
import Mathlib.Data.List.Flatten

/-!
# FrameFit — whether a text within the limit fits a frame, `config.ts`

The configuration bounds the text of a copy and the frame it travels in, and checks one against
the other.  Between the two stand the header, the padding, the tag, base64 and the envelope.

* `clipFrameLen` — the bytes of the frame of a text of so many bytes.
* `text_fits_iff` — under an accepted configuration every text within the limit gives a frame
  within the limit exactly when the longest one does.
-/

namespace Asli

open Logic

/-! ## Lengths -/

namespace Crypto

theorem utf8_length (s : String) : (utf8 s).length = s.utf8ByteSize := by
  unfold utf8
  rw [Array.length_toList]
  rfl

theorem encodeInner_short {inner : Inner} (h : inner.content.length ≤ 2 ^ 31) :
    (encodeInner inner).length ≤ 2 ^ 32 := by
  have hpadded := paddedLen_lt (INNER_HEADER_LEN + inner.content.length)
  have hheader : INNER_HEADER_LEN + SMALL_MAX ≤ 2 ^ 31 := by decide
  rw [encodeInner_length]
  omega

theorem Clip.seal_total {P : Primitives} (hP : AeadTotal P) (key : Key) (epoch : UInt32)
    (room : RoomId) (msgId : MsgId) (nonce : Nonce) {inner : Inner}
    (hlen : (encodeInner inner).length ≤ 2 ^ 32) :
    ∃ sealed, Clip.seal_ P key epoch room msgId (some nonce) inner = .ok sealed := by
  rcases hP.encrypts key nonce (encodeInner inner)
    (buildAad PROTOCOL_VERSION TYPE_CLIP epoch room msgId) hlen with ⟨ct, hencrypt, -⟩
  have hct : sealTyped P TYPE_CLIP key epoch room msgId nonce (encodeInner inner) = .ok ct := by
    rw [sealTyped, hencrypt]
  exact ⟨⟨nonce, ct⟩,
    congrArg (fun x : Except Error Bytes => x >>= fun ct => .ok (⟨nonce, ct⟩ : Sealed)) hct⟩

/-- What a sealed text is made of has the length of its bucket and a tag. -/
theorem Clip.seal_length {P : Primitives} (hP : AeadTotal P) {key : Key} {epoch : UInt32}
    {room : RoomId} {msgId : MsgId} {nonce : Option Nonce} {inner : Inner} {sealed : Sealed}
    (hlen : (encodeInner inner).length ≤ 2 ^ 32)
    (h : Clip.seal_ P key epoch room msgId nonce inner = .ok sealed) :
    sealed.ciphertext.length =
      paddedLen (INNER_HEADER_LEN + inner.content.length) + TAG_LEN := by
  rcases Result.bind_ok h with ⟨nonce, -, h⟩
  rcases Result.bind_ok h with ⟨ciphertext, hct, h⟩
  cases h
  rcases hP.encrypts key nonce (encodeInner inner)
    (buildAad PROTOCOL_VERSION TYPE_CLIP epoch room msgId) hlen with ⟨ct, hencrypt, hctlen⟩
  rw [sealTyped, hencrypt] at hct
  cases hct
  rw [hctlen, encodeInner_length]

end Crypto

namespace Core

theorem foldLineEnds_size (text : List Char) :
    ((foldLineEnds text).flatMap String.utf8EncodeChar).length ≤
      (text.flatMap String.utf8EncodeChar).length := by
  have hends : (String.utf8EncodeChar '\n').length = 1 ∧
      (String.utf8EncodeChar '\r').length = 1 := by
    decide
  induction text using foldLineEnds.induct with
  | case1 => exact Nat.le_refl _
  | case2 rest ih =>
      simp only [foldLineEnds, List.flatMap_cons, List.length_append, hends.1, hends.2]
      omega
  | case3 rest hcrlf ih =>
      rw [foldLineEnds, List.flatMap_cons, List.flatMap_cons, List.length_append,
        List.length_append, hends.1, hends.2]
      · exact Nat.add_le_add_left ih 1
      · exact hcrlf
  | case4 c rest hcrlf hcr ih =>
      rw [foldLineEnds, List.flatMap_cons, List.flatMap_cons, List.length_append,
        List.length_append]
      · exact Nat.add_le_add_left ih _
      · exact hcrlf
      · exact hcr

theorem stripBom_sublist (text : List Char) : (stripBom text).Sublist text := by
  unfold stripBom
  split
  · split
    · exact List.sublist_cons_self _ _
    · exact List.Sublist.refl _
  · exact List.Sublist.refl _

theorem stripNul_sublist (text : List Char) : (stripNul text).Sublist text := by
  unfold stripNul
  split
  · exact List.dropLast_sublist text
  · exact List.Sublist.refl text

/-- What a session seals is never longer than what was copied. -/
theorem normalize_length_le (text : String) :
    (Crypto.utf8 (normalize text)).length ≤ (Crypto.utf8 text).length := by
  have hstrip : (stripNul (stripBom text.toList)).Sublist text.toList :=
    (stripNul_sublist _).trans (stripBom_sublist _)
  unfold Crypto.utf8
  rw [Utf8.bytes_eq, Utf8.bytes_eq, normalize, String.toList_ofList]
  exact Nat.le_trans (foldLineEnds_size _) (hstrip.flatMap _).length_le

end Core

namespace Net

open Crypto (Primitives AeadTotal)

/-! ## The frame of a copy -/

/-- The bytes of the frame of a text of `content` bytes: the envelope with the digits of the epoch,
and the base64 of the padded text and its tag. -/
def clipFrameLen (epoch : UInt32) (content : Nat) : Nat :=
  149 + Json.digits epoch.toNat +
    Base64.encodedLen (Crypto.paddedLen (Crypto.INNER_HEADER_LEN + content) + Crypto.TAG_LEN)

theorem clipFrameLen_mono (epoch : UInt32) {a b : Nat} (h : a ≤ b) :
    clipFrameLen epoch a ≤ clipFrameLen epoch b := by
  have hpadded : Crypto.paddedLen (Crypto.INNER_HEADER_LEN + a) ≤
      Crypto.paddedLen (Crypto.INNER_HEADER_LEN + b) :=
    Crypto.paddedLen_mono (Nat.add_le_add_left h _)
  unfold clipFrameLen Base64.encodedLen
  apply Nat.add_le_add_left
  apply Nat.mul_le_mul_left
  apply Nat.div_le_div_right
  exact Nat.add_le_add_right (Nat.add_le_add_right hpadded _) 2

/-- Text of so many letters. -/
def letters (n : Nat) : String :=
  String.ofList (List.replicate n 'a')

theorem letters_size (n : Nat) : (Crypto.utf8 (letters n)).length = n := by
  have hletter : ∀ c ∈ List.replicate n 'a', c.utf8Size = 1 := by
    intro c hc
    rw [List.eq_of_mem_replicate hc]
    decide
  rw [Crypto.utf8_length, letters, size_ofList hletter, List.length_replicate]

theorem letters_normalize (n : Nat) : Core.normalize (letters n) = letters n := by
  have hbom : Core.stripBom (List.replicate n 'a') = List.replicate n 'a' := by
    apply Core.stripBom_of_head
    intro h
    exact absurd (List.eq_of_mem_replicate (List.mem_of_mem_head? h)) (by decide)
  have hnul : Core.stripNul (List.replicate n 'a') = List.replicate n 'a' := by
    apply Core.stripNul_of_last
    intro h
    exact absurd (List.eq_of_mem_replicate (List.mem_of_mem_getLast? h)) (by decide)
  have hends : Core.foldLineEnds (List.replicate n 'a') = List.replicate n 'a' := by
    apply Core.foldLineEnds_of_no_cr
    intro h
    exact absurd (List.eq_of_mem_replicate h) (by decide)
  unfold Core.normalize letters
  rw [String.toList_ofList, hbom, hnul, hends]

theorem letters_syncable {n : Nat} (h : 0 < n) : Core.isSyncable (letters n) = true := by
  unfold Core.isSyncable letters
  rw [String.toList_ofList, List.any_eq_true]
  exact ⟨'a', List.mem_replicate.mpr ⟨Nat.pos_iff_ne_zero.mp h, rfl⟩, by decide⟩

/-- What a session sends for a copy is as long as the text says. -/
theorem Session.observeLocal_size {P : Primitives} (hP : AeadTotal P) {s : Session} {text : String}
    {nowMs : UInt64} {draw : SealDraw} {m : Message}
    (hshort : (Crypto.utf8 (Core.normalize text)).length ≤ 2 ^ 31)
    (h : (s.observeLocal P text nowMs draw).2 = .ok (some m)) :
    m.toFrame.utf8ByteSize =
      clipFrameLen s.epoch (Crypto.utf8 (Core.normalize text)).length := by
  revert h
  unfold Session.observeLocal
  split
  · exact fun h => by cases h
  dsimp only
  split
  · exact fun h => by cases h
  split
  · exact fun h => by cases h
  split
  · exact fun h => by cases h
  intro h
  rcases Session.orFail_sent h with ⟨msgId, -, h⟩
  rcases Session.orFail_sent h with ⟨sealed, hseal, h⟩
  cases h
  rw [clip_size, Crypto.Clip.seal_length hP ?_ hseal]
  · rfl
  · -- the bucket of a text this short is below what the cipher takes
    exact Crypto.encodeInner_short hshort

/-- So many letters, within the limit the relay announced, are sealed. -/
theorem Session.observeLocal_letters {P : Primitives} (hP : AeadTotal P) {s : Session}
    {limits : Limits} {n : Nat} {msgId : Crypto.MsgId} {nonce : Crypto.Nonce}
    (hready : s.phase = .ready) (hecho : s.echo.entries = []) (hlimits : s.limits = some limits)
    (hpos : 0 < n) (hfits : n ≤ limits.maxContentBytes.toNat) (hshort : n ≤ 2 ^ 31)
    (nowMs : UInt64) :
    ∃ m, (s.observeLocal P (letters n) nowMs ⟨some msgId, some nonce⟩).2 = .ok (some m) := by
  have hguard : (s.echo.takeEcho (P.sha256 (Crypto.utf8 (letters n))) nowMs).2 = false := by
    simp [Core.EchoGuard.takeEcho, Core.EchoGuard.expire, hecho]
  have hsize := letters_size n
  have hsmall : ¬ n > limits.maxContentBytes.toNat := Nat.not_lt.mpr hfits
  unfold Session.observeLocal
  rw [if_neg (not_not.mpr hready)]
  dsimp only
  rw [letters_normalize, letters_syncable hpos, Bool.not_true, if_neg Bool.false_ne_true, hguard,
    if_neg Bool.false_ne_true]
  split
  next htoo =>
    rw [hlimits, hsize] at htoo
    exact absurd (of_decide_eq_true htoo) hsmall
  next =>
    let inner : Crypto.Inner := {
      contentType := .text
      deviceId := s.deviceId
      seq := satAdd64 s.seq 1
      tsMs := nowMs
      content := Crypto.utf8 (letters n) }
    have hbound : (Crypto.encodeInner inner).length ≤ 2 ^ 32 :=
      Crypto.encodeInner_short (Nat.le_trans (Nat.le_of_eq hsize) hshort)
    rcases Crypto.Clip.seal_total hP (s.identity.encKey P s.epoch) s.epoch
      (s.identity.roomIdBytes P) msgId nonce hbound with ⟨sealed, hseal⟩
    rw [Crypto.drawn_some, Session.orFail_ok]
    rw [hseal, Session.orFail_ok]
    exact ⟨_, rfl⟩

end Net

namespace Relay

open Net (Message SealDraw clipFrameLen letters)
open Crypto (Primitives AeadTotal)

/-! ## The two limits -/

theorem readSettings_maxContentBytes {process : Process} :
    Logic.Result.Ensures (readSettings process) fun s =>
      KIB ≤ s.maxContentBytes ∧ s.maxContentBytes ≤ 32 * MIB := by
  unfold readSettings
  iterate 4 refine Logic.Result.Ensures.skip fun _ => ?_
  refine Logic.Result.Ensures.bind (readInt_range (by decide) (by decide))
    fun content hcontent => ?_
  iterate 27 refine Logic.Result.Ensures.skip fun _ => ?_
  exact Logic.Result.Ensures.ok hcontent

/-- A frame is turned away for its size exactly when it is larger than the limit. -/
theorem parseFrame_too_large {J : JsonText} {raw : String} {maxFrameBytes : Nat}
    (h : raw.utf8ByteSize ≤ maxFrameBytes) :
    parseFrame J raw maxFrameBytes ≠ .error ⟨.messageTooLarge, 4006⟩ := by
  unfold parseFrame
  rw [if_neg (Nat.not_lt.mpr h)]
  split
  · split
    · exact fun heq => by cases heq
    · split
      · exact fun heq => by cases heq
      · split
        · exact fun heq => by cases heq
        · split <;> exact fun heq => by cases heq
  · exact fun heq => by cases heq

/-- Whatever a session at this epoch makes of a text within the limit, the relay takes the frame.
The client folds line ends before it measures a text, which makes none longer. -/
def TextFits (P : Primitives) (config : Settings) (epoch : UInt32) : Prop :=
  ∀ (s : Net.Session) (text : String) (nowMs : UInt64) (draw : SealDraw) (m : Message),
    s.epoch = epoch → (Crypto.utf8 (Core.normalize text)).length ≤ config.maxContentBytes →
    (s.observeLocal P text nowMs draw).2 = .ok (some m) →
      m.toFrame.utf8ByteSize ≤ config.maxFrameBytes ∧
        ∀ J : JsonText, parseFrame J m.toFrame config.maxFrameBytes ≠
          .error ⟨.messageTooLarge, 4006⟩

/-- A session that was told the limit, right after it got ready. -/
def informed (config : Settings) (epoch : UInt32) : Net.Session :=
  { Net.Session.new ⟨ByteArr.fill 32 0⟩ (ByteArr.fill 16 0) 0 with
    epoch := epoch
    phase := .ready
    limits := some {
      maxFrameBytes := UInt64.ofNat config.maxFrameBytes
      maxContentBytes := UInt64.ofNat config.maxContentBytes
      retainMaxBytes := UInt64.ofNat config.retainMaxBytes
      msgsPerSec := UInt64.ofNat config.msgsPerSec
      roomBytesPerDay := UInt64.ofNat config.roomBytesPerDay } }

/-- It sends the longest text of letters that it was told about. -/
theorem longest_sent {P : Primitives} (hP : AeadTotal P) {process : Process} {config : Settings}
    (hload : loadConfig process = .ok config) (epoch : UInt32) :
    ∃ m, ((informed config epoch).observeLocal P (letters config.maxContentBytes) 0
        ⟨some (ByteArr.fill 16 0), some (ByteArr.fill 24 0)⟩).2 = .ok (some m) ∧
      m.toFrame.utf8ByteSize = clipFrameLen epoch config.maxContentBytes := by
  rcases loadConfig_ensures readSettings_maxContentBytes config hload with ⟨hlow, hhigh⟩
  have hmib : 32 * MIB ≤ 2 ^ 31 := by decide
  have hannounced : (UInt64.ofNat config.maxContentBytes).toNat = config.maxContentBytes := by
    rw [UInt64.toNat_ofNat']
    exact Nat.mod_eq_of_lt (by omega)
  rcases Net.Session.observeLocal_letters hP (s := informed config epoch) rfl rfl rfl
    (Nat.lt_of_lt_of_le (by decide) hlow) (Nat.le_of_eq hannounced.symm)
    (Nat.le_trans hhigh hmib) 0 with ⟨m, hm⟩
  refine ⟨m, hm, ?_⟩
  have hsize := Net.Session.observeLocal_size hP ?_ hm
  · rw [hsize, Net.letters_normalize, Net.letters_size]
    rfl
  · rw [Net.letters_normalize, Net.letters_size]
    exact Nat.le_trans hhigh hmib

/-- Under a configuration that was accepted, every text within the limit fits a frame exactly when
the longest one does. -/
theorem text_fits_iff {P : Primitives} (hP : AeadTotal P) {process : Process} {config : Settings}
    (hload : loadConfig process = .ok config) (epoch : UInt32) :
    TextFits P config epoch ↔
      clipFrameLen epoch config.maxContentBytes ≤ config.maxFrameBytes := by
  constructor
  · intro hall
    rcases longest_sent hP hload epoch with ⟨m, hm, hsize⟩
    rw [← hsize]
    refine (hall _ _ _ _ m rfl ?_ hm).1
    rw [Net.letters_normalize, Net.letters_size]
  · intro hfits s text nowMs draw m hepoch hlen hm
    rcases loadConfig_ensures readSettings_maxContentBytes config hload with ⟨-, hhigh⟩
    have hmib : 32 * MIB ≤ 2 ^ 31 := by decide
    have hsize : m.toFrame.utf8ByteSize ≤ config.maxFrameBytes := by
      calc m.toFrame.utf8ByteSize
          = clipFrameLen s.epoch (Crypto.utf8 (Core.normalize text)).length :=
            Net.Session.observeLocal_size hP (Nat.le_trans hlen (Nat.le_trans hhigh hmib)) hm
        _ ≤ clipFrameLen s.epoch config.maxContentBytes := Net.clipFrameLen_mono s.epoch hlen
        _ ≤ config.maxFrameBytes := hepoch ▸ hfits
    exact ⟨hsize, fun J => parseFrame_too_large hsize⟩

theorem load_nothing :
    loadConfig ⟨fun _ => none, fun _ => none⟩ = .ok (budgetOnly (256 * MIB)) := rfl

/-- What is loaded when nothing is set. -/
theorem default_text_fits : TextFits Net.ZeroBoxKey.primitives (budgetOnly (256 * MIB)) 0 :=
  (text_fits_iff Net.ZeroBoxKey.aeadTotal load_nothing 0).mpr (by decide +kernel)

/-- A limit for texts below three quarters of the default limit for frames. -/
def roomyContent : Settings :=
  { budgetOnly (256 * MIB) with maxContentBytes := 750000 }

theorem load_roomyContent :
    loadConfig (oneVariable "MAX_CONTENT_BYTES" 750000) = .ok roomyContent := by
  decide +kernel

/-- The configuration is accepted, and the longest text it allows is turned away. -/
theorem text_turned_away :
    ¬ ∀ (P : Primitives), AeadTotal P → ∀ (process : Process) (config : Settings),
      loadConfig process = .ok config → ∀ epoch, TextFits P config epoch := by
  intro hall
  rcases longest_sent Net.ZeroBoxKey.aeadTotal load_roomyContent 0 with ⟨m, hm, hsize⟩
  have hfits : m.toFrame.utf8ByteSize ≤ roomyContent.maxFrameBytes := by
    refine (hall _ Net.ZeroBoxKey.aeadTotal _ _ load_roomyContent 0 _ _ _ _ m rfl ?_ hm).1
    rw [Net.letters_normalize, Net.letters_size]
  rw [hsize] at hfits
  exact absurd hfits (by decide +kernel)

end Relay
end Asli
