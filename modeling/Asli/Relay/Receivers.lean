import Asli.Logic.Utf8
import Asli.Net.Frames
import Asli.Net.SessionSteps
import Asli.Relay.Decoders

/-!
# Receivers — what the relay lets through and what receivers take

The relay validates the value `JSON.parse` gives, and forwards the bytes it was sent.  A receiver
reads these with its own parser, which refuses repeated members, reads an integer field from digits
alone, and takes no surrogate without its pair.

* `receivers_take_iff` — a frame the relay accepts is taken by receivers exactly when it is plain.
-/

namespace Asli
namespace Relay

open Logic Crypto

/-! ## The relay's side -/

/-- `parseFrame` of a buffer: its bytes are counted, and its text decoded with replacement. -/
def parseBytes (raw : Bytes) (maxFrameBytes : Nat) : Except ParseFailure Envelope :=
  if raw.length > maxFrameBytes then .error ⟨.messageTooLarge, 4006⟩
  else parseFrame jsonParse (Utf8.lossy raw) (Utf8.lossy raw).utf8ByteSize

/-- The validator of a forwarded type accepts. -/
def validates (message : Envelope) (maxFrameChars : Nat) : Bool :=
  match message.type with
  | .clip => (validateClip message maxFrameChars).isSome
  | .clipBegin | .clipChunk | .clipEnd => (validateChunk message maxFrameChars).isSome
  | .announce => (validateAnnounce message).isSome
  | .msg => (validateMsg message maxFrameChars).isSome
  | .hello | .auth | .fetchLast | .ping | .pong => false

/-! ## A receiver's side -/

/-- What the structural checks of a sealed frame look at. -/
def sealedParts : Net.Message → Option (Bytes × Bytes × Bytes)
  | .clip m => some (m.msgId, m.n, m.ct)
  | .clipBegin m | .clipChunk m | .clipEnd m => some (m.msgId, m.n, m.ct)
  | .announce m => some (m.msgId, m.n, m.ct)
  | .msg m => some (m.msgId, m.n, m.ct)
  | _ => none

/-- A message of the type, of this version, that passes the checks of a session on lengths. -/
def TakenAs (type : FrameType) (m : Net.Message) : Prop :=
  m.kind = type.text ∧ m.version = Net.PROTOCOL_VERSION ∧ ∃ parts ids, sealedParts m = some parts ∧
    Net.Session.sealedHeader parts.1 parts.2.1 parts.2.2 = .ok ids

/-- The bytes parse as such a message. -/
def Taken (raw : Bytes) (type : FrameType) : Prop :=
  ∃ text m, fromUtf8? raw = some text ∧ Net.Message.parse Net.serdeJson text = .ok m ∧
    TakenAs type m

/-- Every session that is ready goes on after the frame. -/
def Handled (raw : Bytes) : Prop :=
  ∃ text, fromUtf8? raw = some text ∧ ∀ (P : Primitives) (s : Net.Session) (nowMs : UInt64)
    (draws : Net.FrameDraws), s.phase = .ready →
      ∃ actions, (s.handleFrame P Net.serdeJson text nowMs draws).2 = .ok actions

/-- A number literal of digits alone. -/
def DigitsAlone (n : JsonNumber) : Prop :=
  n.negative = false ∧ n.fraction = none ∧ n.exponent = none

/-- A value as both parsers read it alike: a number of digits alone, a string without a surrogate
that stands alone. -/
def PlainValue : RawJson → Prop
  | .num n => DigitsAlone n
  | .str s => (StrPiece.strict s).isSome = true
  | _ => True

/-- A frame of UTF-8 that repeats no member and whose values are plain. -/
def PlainFrame (raw : Bytes) : Prop :=
  ∃ text members, fromUtf8? raw = some text ∧ JsonGrammar.parse text = some (.obj members) ∧
    ((RawJson.lossyMembers members).map Prod.fst).Nodup ∧ ∀ m ∈ members, PlainValue m.2

/-! ## What validation tells -/

/-- The fields every forwarded type has, as the relay read them. -/
structure SealedFields (members : Json.Members) : Prop where
  v : asInteger (field members "v") = some 1
  room : ∃ s, field members "room" = some (.str s)
  epoch : ∃ k : Nat, asInteger (field members "epoch") = some k ∧ k ≤ 0xffffffff
  msgId : ∃ b : ByteArr 16, field members "msg_id" = some (Json.ofBytes b.1)
  n : ∃ b : ByteArr 24, field members "n" = some (Json.ofBytes b.1)
  ct : ∃ b : Bytes, 16 < b.length ∧ field members "ct" = some (Json.ofBytes b)

section Fields

variable {message : Envelope} {maxFrameChars : Nat}

theorem asString_eq_some {value : Option Json} {s : String} (h : asString value = some s) :
    value = some (.str s) := by
  unfold asString at h
  split at h
  · rw [Option.some.inj h]
  · cases h

theorem decodeExact_some {value : Option Json} {k : Nat} {b : ByteArr k}
    (h : decodeExact value k = some b) : value = some (Json.ofBytes b.1) := by
  unfold decodeExact at h
  split at h
  · cases h
  · rename_i s hs
    split at h
    · cases h
    · split at h
      · cases h
      · simp only at h
        split at h
        · rename_i hround
          rw [asString_eq_some hs, ← hround, ByteArr.ofBytes?_eq_some.1 h]
          rfl
        · cases h

theorem decodeAtLeast_some {value : Option Json} {minBytes maxChars : Nat} {b : Bytes}
    (h : decodeAtLeast value minBytes maxChars = some b) :
    minBytes ≤ b.length ∧ value = some (Json.ofBytes b) := by
  unfold decodeAtLeast at h
  split at h
  · cases h
  · rename_i s hs
    split at h
    · cases h
    · split at h
      · cases h
      · simp only at h
        split at h
        · cases h
        · rename_i hlong
          split at h
          · rename_i hround
            cases h
            refine ⟨Nat.not_lt.1 hlong, ?_⟩
            rw [asString_eq_some hs]
            exact congrArg (fun s => some (Json.str s)) hround.symm
          · cases h

theorem epochOf_some {k : Nat} (h : epochOf message = some k) :
    asInteger (message.get "epoch") = some (k : Int) ∧ k ≤ 0xffffffff := by
  unfold epochOf at h
  split at h
  · cases h
  · rename_i n hn
    split at h
    · cases h
    · rename_i hrange
      cases h
      rw [hn]
      exact ⟨congrArg some (by omega), by omega⟩

theorem roomText_some {s : String} (h : roomText message = some s) :
    message.get "room" = some (.str s) := by
  unfold roomText at h
  split at h
  · cases h
  · rename_i s' hs
    split at h
    · cases h
    · cases h
      exact asString_eq_some hs

theorem validateClip_some {fields : ClipFields}
    (hv : asInteger (field message.members "v") = some 1)
    (h : validateClip message maxFrameChars = some fields) : SealedFields message.members := by
  unfold validateClip at h
  simp only [Option.bind_eq_bind, Option.bind_eq_some_iff] at h
  rcases h with ⟨room, hroom, epoch, hepoch, msgId, hid, text, -, nonce, hnonce, ct, hct, -⟩
  exact {
    v := hv
    room := ⟨room, roomText_some hroom⟩
    epoch := ⟨epoch, epochOf_some hepoch⟩
    msgId := ⟨msgId, decodeExact_some hid⟩
    n := ⟨nonce, decodeExact_some hnonce⟩
    ct := ⟨ct, decodeAtLeast_some hct⟩ }

/-- The position of a chunk, as the relay read it. -/
structure PositionFields (members : Json.Members) : Prop where
  idx : ∃ k : Nat, asInteger (field members "idx") = some k ∧ k ≤ 0xffffffff
  chunkCount : ∃ k : Nat, asInteger (field members "chunk_count") = some k ∧ k ≤ 0xffffffff

theorem positionOf_some {position : Nat × Nat} (h : positionOf message = some position) :
    PositionFields message.members := by
  unfold positionOf at h
  split at h
  · rename_i idx chunkCount hidx hcount
    split at h
    · cases h
    · rename_i hrange
      have hmax : MAX_CHUNKS = 4096 := rfl
      refine ⟨⟨idx.toNat, ?_, by omega⟩, chunkCount.toNat, ?_, by omega⟩
      · rw [← Envelope.get, hidx]
        exact congrArg some (by omega)
      · rw [← Envelope.get, hcount]
        exact congrArg some (by omega)
  · cases h

theorem validateChunk_some {fields : ChunkFields}
    (hv : asInteger (field message.members "v") = some 1)
    (h : validateChunk message maxFrameChars = some fields) :
    SealedFields message.members ∧ PositionFields message.members := by
  unfold validateChunk at h
  simp only [Option.bind_eq_bind, Option.bind_eq_some_iff] at h
  rcases h with ⟨room, hroom, epoch, hepoch, msgId, hid, text, -, position, hposition, nonce,
    hnonce, ct, hct, -⟩
  refine ⟨?_, positionOf_some hposition⟩
  exact {
    v := hv
    room := ⟨room, roomText_some hroom⟩
    epoch := ⟨epoch, epochOf_some hepoch⟩
    msgId := ⟨msgId, decodeExact_some hid⟩
    n := ⟨nonce, decodeExact_some hnonce⟩
    ct := ⟨ct, decodeAtLeast_some hct⟩ }

theorem validateAnnounce_some {fields : ClipFields}
    (hv : asInteger (field message.members "v") = some 1)
    (h : validateAnnounce message = some fields) : SealedFields message.members := by
  unfold validateAnnounce at h
  split at h
  · cases h
  · rename_i clip hclip
    exact validateClip_some hv hclip

/-- An absent addressee, or a text. -/
def ToField (members : Json.Members) : Prop :=
  field members "to" = none ∨ ∃ s, field members "to" = some (.str s)

theorem validateMsg_some {fields : MsgFields}
    (hv : asInteger (field message.members "v") = some 1)
    (h : validateMsg message maxFrameChars = some fields) :
    SealedFields message.members ∧ ToField message.members := by
  unfold validateMsg at h
  split at h
  · cases h
  · rename_i clip hclip
    refine ⟨validateClip_some hv hclip, ?_⟩
    split at h
    · rename_i hnone
      exact .inl hnone
    · rename_i s hs
      exact .inr ⟨s, hs⟩
    · cases h

end Fields

/-! ## Numbers -/

section Numbers

variable {n : JsonNumber} {k : Nat}

theorem DigitsAlone.eq (h : DigitsAlone n) : n = { whole := n.whole } := by
  rcases n with ⟨negative, whole, fraction, exponent⟩
  rcases h with ⟨hnegative, hfraction, hexponent⟩
  simp only at hnegative hfraction hexponent
  rw [hnegative, hfraction, hexponent]

/-- Read from digits alone, a small number is the one the relay read. -/
theorem asNat?_of_asInteger (h : DigitsAlone n) (hk : asInteger (some (.num n)) = some (k : Int))
    (hsmall : k ≤ 0xffffffff) : Json.asNat? (.num n) = some k := by
  have hdouble : toDouble (n.whole : ℚ) = some (k : ℚ) := by
    have hvalue : n.double = toDouble (n.whole : ℚ) := by
      rw [JsonNumber.double, h.eq, JsonNumber.value_whole]
    unfold asInteger at hk
    dsimp only at hk
    split at hk
    · cases hk
    · rename_i q hq
      split at hk
      · rename_i hden
        rw [← hvalue, hq]
        have hq' : q = (q.num : ℚ) := (Rat.den_eq_one_iff q).1 hden |>.symm
        rw [hq', Option.some.inj hk]
        push_cast
        rfl
      · cases hk
  have hwhole : (k : ℚ) = n.whole := toDouble_natCast_small hdouble (by
    have hle : (k : ℚ) ≤ (0xffffffff : Nat) := by exact_mod_cast hsmall
    calc (k : ℚ) ≤ (0xffffffff : Nat) := hle
      _ ≤ 2 ^ 52 := by norm_num)
  have heq : n.whole = k := by exact_mod_cast hwhole.symm
  rw [h.eq]
  exact congrArg some heq

theorem digitsAlone_of_asNat? (h : Json.asNat? (.num n) = some k) : DigitsAlone n := by
  unfold Json.asNat? at h
  split at h
  · rename_i heq
    cases heq
    exact ⟨rfl, rfl, rfl⟩
  · cases h

theorem double_isSome {value : Option Json} {z : Int} (h : asInteger value = some z) :
    ∃ n, value = some (.num n) ∧ n.double.isSome = true := by
  unfold asInteger at h
  split at h
  · rename_i n
    refine ⟨n, rfl, ?_⟩
    split at h
    · cases h
    · rename_i q hq
      rw [hq]
      rfl
  · cases h

end Numbers

/-! ## Members of an accepted frame -/

/-- The fields that are numbers. -/
def NUMBERS : List String :=
  ["v", "epoch", "idx", "chunk_count"]

/-- Every member the relay let through is a number it read or a string. -/
def Checked (members : Json.Members) : Prop :=
  ∀ key ∈ members.map Prod.fst,
    (key ∈ NUMBERS ∧ ∃ k : Nat, asInteger (field members key) = some k ∧ k ≤ 0xffffffff) ∨
      ∃ s, field members key = some (.str s)

section Checked

variable {members : Json.Members} {type : FrameType} {name : String}

theorem SealedFields.checked (h : SealedFields members)
    (htype : field members "type" = some (.str name)) {key : String}
    (hkey : key ∈ ["v", "type", "room", "epoch", "msg_id", "n", "ct"]) :
    (key ∈ NUMBERS ∧ ∃ k : Nat, asInteger (field members key) = some k ∧ k ≤ 0xffffffff) ∨
      ∃ s, field members key = some (.str s) := by
  simp only [List.mem_cons, List.not_mem_nil, or_false] at hkey
  rcases hkey with rfl | rfl | rfl | rfl | rfl | rfl | rfl
  · exact .inl ⟨by decide, 1, h.v, by decide⟩
  · exact .inr ⟨name, htype⟩
  · exact .inr h.room
  · exact .inl ⟨by decide, h.epoch⟩
  · rcases h.msgId with ⟨b, hb⟩
    exact .inr ⟨_, hb⟩
  · rcases h.n with ⟨b, hb⟩
    exact .inr ⟨_, hb⟩
  · rcases h.ct with ⟨b, -, hb⟩
    exact .inr ⟨_, hb⟩

theorem PositionFields.checked (h : PositionFields members) {key : String}
    (hkey : key ∈ ["idx", "chunk_count"]) :
    key ∈ NUMBERS ∧ ∃ k : Nat, asInteger (field members key) = some k ∧ k ≤ 0xffffffff := by
  simp only [List.mem_cons, List.not_mem_nil, or_false] at hkey
  rcases hkey with rfl | rfl
  · exact ⟨by decide, h.idx⟩
  · exact ⟨by decide, h.chunkCount⟩

theorem mem_of_field {key : String} {j : Json} (h : field members key = some j) :
    key ∈ members.map Prod.fst := by
  unfold field at h
  have hmem : ∀ ms : Json.Members, ms.lookup key = some j → key ∈ ms.map Prod.fst := by
    intro ms
    induction ms with
    | nil => exact fun h => nomatch h
    | cons m ms ih =>
        rcases m with ⟨other, v⟩
        intro hlookup
        rw [List.lookup_cons] at hlookup
        by_cases hkey : key = other
        · rw [hkey]
          exact List.mem_cons_self
        · rw [beq_false_of_ne hkey] at hlookup
          exact List.mem_cons_of_mem _ (ih hlookup)
  have hreverse := hmem members.reverse h
  rwa [List.map_reverse, List.mem_reverse] at hreverse

theorem lookup_isSome {ms : Json.Members} {key : String} (h : key ∈ ms.map Prod.fst) :
    (ms.lookup key).isSome = true := by
  induction ms with
  | nil => cases h
  | cons m ms ih =>
      rcases m with ⟨other, v⟩
      rw [List.lookup_cons]
      by_cases hkey : key = other
      · rw [hkey, beq_self_eq_true]
        rfl
      · rw [beq_false_of_ne hkey]
        rcases List.mem_cons.1 h with heq | hmem
        · exact absurd heq hkey
        · exact ih hmem

/-- Without repetitions, the last member of a name is the first. -/
theorem field_eq_lookup (h : (members.map Prod.fst).Nodup) (key : String) :
    field members key = members.lookup key := by
  apply Json.lookup_congr
  · rw [List.map_reverse]
    exact List.nodup_reverse.2 h
  · exact h
  · exact fun j => List.mem_reverse

end Checked

/-- What `parseFrame` has checked of a frame. -/
structure Accepted (message : Envelope) : Prop where
  type : field message.members "type" = some (.str message.type.text)
  v : asInteger (field message.members "v") = some 1
  allowed : ∀ m ∈ message.members, m.1 ∈ message.type.allowed

section Accepted

variable {message : Envelope} {maxFrameChars : Nat}

theorem parseFrame_ok {J : JsonText} {text : String} {maxFrameBytes : Nat}
    (h : parseFrame J text maxFrameBytes = .ok message) :
    J.parse text = some (.obj message.members) ∧ Accepted message := by
  unfold parseFrame at h
  split at h
  · cases h
  · split at h
    · rename_i members hparse
      split at h
      · cases h
      · rename_i hv
        split at h
        · cases h
        · rename_i name hname
          split at h
          · cases h
          · rename_i type htype
            split at h
            · rename_i hall
              cases h
              have htext : type.text = name := by
                have hfound := List.find?_some htype
                exact beq_iff_eq.1 hfound
              refine ⟨hparse, ?_, not_not.1 hv, fun m hm => ?_⟩
              · rw [htext]
                exact asString_eq_some hname
              · exact List.contains_iff_mem.1 (List.all_eq_true.1 hall m hm)
            · cases h
    · cases h

/-- The types the relay forwards, each with what its validator leaves to know. -/
theorem Accepted.checked (h : Accepted message) (hvalid : validates message maxFrameChars = true) :
    Checked message.members ∧ SealedFields message.members ∧
      (message.type = .clipBegin ∨ message.type = .clipChunk ∨ message.type = .clipEnd →
        PositionFields message.members) ∧
      (message.type = .msg → ToField message.members) := by
  have hallowed : ∀ key ∈ message.members.map Prod.fst, key ∈ message.type.allowed := by
    intro key hkey
    rcases List.mem_map.1 hkey with ⟨m, hm, rfl⟩
    exact h.allowed m hm
  -- the three types of chunks have the same fields
  have hchunk : message.type.allowed = FrameType.CHUNK_FIELDS →
      (validateChunk message maxFrameChars).isSome = true →
      Checked message.members ∧ SealedFields message.members ∧ PositionFields message.members := by
    intro hfields hvalid
    rcases Option.isSome_iff_exists.1 hvalid with ⟨fields, hsome⟩
    rcases validateChunk_some h.v hsome with ⟨hsealed, hposition⟩
    refine ⟨fun key hkey => ?_, hsealed, hposition⟩
    have hmem := hallowed key hkey
    rw [hfields] at hmem
    have hsplit : key ∈ ["v", "type", "room", "epoch", "msg_id", "n", "ct"] ∨
        key ∈ ["idx", "chunk_count"] := by
      simp only [FrameType.CHUNK_FIELDS, List.mem_cons, List.not_mem_nil, or_false] at hmem ⊢
      tauto
    rcases hsplit with hkey | hkey
    · exact hsealed.checked h.type hkey
    · exact .inl (hposition.checked hkey)
  unfold validates at hvalid
  split at hvalid
  · rename_i htype
    rcases Option.isSome_iff_exists.1 hvalid with ⟨fields, hsome⟩
    have hsealed := validateClip_some h.v hsome
    rw [htype] at hallowed
    refine ⟨fun key hkey => hsealed.checked h.type (hallowed key hkey), hsealed, ?_, ?_⟩
    · rw [htype]
      rintro (hne | hne | hne) <;> cases hne
    · rw [htype]
      intro hne
      cases hne
  · rename_i htype
    rcases hchunk (by rw [htype]; rfl) hvalid with ⟨hchecked, hsealed, hposition⟩
    refine ⟨hchecked, hsealed, fun _ => hposition, ?_⟩
    rw [htype]
    intro hne
    cases hne
  · rename_i htype
    rcases hchunk (by rw [htype]; rfl) hvalid with ⟨hchecked, hsealed, hposition⟩
    refine ⟨hchecked, hsealed, fun _ => hposition, ?_⟩
    rw [htype]
    intro hne
    cases hne
  · rename_i htype
    rcases hchunk (by rw [htype]; rfl) hvalid with ⟨hchecked, hsealed, hposition⟩
    refine ⟨hchecked, hsealed, fun _ => hposition, ?_⟩
    rw [htype]
    intro hne
    cases hne
  · rename_i htype
    rcases Option.isSome_iff_exists.1 hvalid with ⟨fields, hsome⟩
    have hsealed := validateAnnounce_some h.v hsome
    rw [htype] at hallowed
    refine ⟨fun key hkey => hsealed.checked h.type (hallowed key hkey), hsealed, ?_, ?_⟩
    · rw [htype]
      rintro (hne | hne | hne) <;> cases hne
    · rw [htype]
      intro hne
      cases hne
  · rename_i htype
    rcases Option.isSome_iff_exists.1 hvalid with ⟨fields, hsome⟩
    rcases validateMsg_some h.v hsome with ⟨hsealed, hto⟩
    rw [htype] at hallowed
    refine ⟨fun key hkey => ?_, hsealed, ?_, fun _ => hto⟩
    · have hsplit : key ∈ ["v", "type", "room", "epoch", "msg_id", "n", "ct"] ∨ key = "to" := by
        have hmem := hallowed key hkey
        simp only [FrameType.allowed, List.mem_cons, List.not_mem_nil, or_false] at hmem ⊢
        tauto
      rcases hsplit with hkey | rfl
      · exact hsealed.checked h.type hkey
      · rcases hto with hnone | hstr
        · -- a member named so is found
          exfalso
          have hsome : (message.members.reverse.lookup "to").isSome = true := by
            have hmem := hkey
            rw [← List.mem_reverse, ← List.map_reverse] at hmem
            exact lookup_isSome hmem
          rw [field] at hnone
          rw [hnone] at hsome
          cases hsome
        · exact .inr hstr
    · rw [htype]
      rintro (hne | hne | hne) <;> cases hne
  all_goals cases hvalid

end Accepted

/-! ## Reading the same members -/

/-- The members but for the tag. -/
def untagged (members : Json.Members) : Json.Members :=
  members.filter fun m => m.1 != "type"

section Read

variable {members : Json.Members} {key : String}

theorem untagged_lookup (hnodup : (members.map Prod.fst).Nodup) (hkey : key ≠ "type") :
    (untagged members).lookup key = field members key := by
  rw [untagged, Json.lookup_filter_ne hkey, field_eq_lookup hnodup]

section Plain

variable (hnodup : (members.map Prod.fst).Nodup)
  (hplain : ∀ key n, (key, Json.num n) ∈ members → DigitsAlone n)

include hnodup

include hplain in
theorem asNat?_untagged (hkey : key ≠ "type") {k : Nat}
    (hk : asInteger (field members key) = some (k : Int)) (hsmall : k ≤ 0xffffffff) :
    ∃ j, (untagged members).lookup key = some j ∧ j.asNat? = some k := by
  rcases double_isSome hk with ⟨n, hn, -⟩
  refine ⟨.num n, by rw [untagged_lookup hnodup hkey, hn], ?_⟩
  have hmem : (key, Json.num n) ∈ members := by
    rw [← Json.lookup_eq_some hnodup, ← field_eq_lookup hnodup]
    exact hn
  rw [hn] at hk
  exact asNat?_of_asInteger (hplain key n hmem) hk hsmall

include hplain in
theorem req_version (hv : asInteger (field members "v") = some 1) :
    Json.req Json.asUInt8? (untagged members) "v" = some Net.PROTOCOL_VERSION := by
  rcases asNat?_untagged (k := 1) hnodup hplain (by decide) hv (by decide) with ⟨j, hj, hnat⟩
  simp only [Json.req, hj, Json.asUInt8?, hnat]
  rfl

include hplain in
theorem req_u32 (hkey : key ≠ "type")
    (h : ∃ k : Nat, asInteger (field members key) = some (k : Int) ∧ k ≤ 0xffffffff) :
    ∃ x, Json.req Json.asUInt32? (untagged members) key = some x := by
  rcases h with ⟨k, hk, hsmall⟩
  rcases asNat?_untagged hnodup hplain hkey hk hsmall with ⟨j, hj, hnat⟩
  refine ⟨UInt32.ofNat k, ?_⟩
  simp only [Json.req, hj, Json.asUInt32?, hnat]
  exact if_pos (by omega)

theorem req_str (hkey : key ≠ "type") {s : String} (h : field members key = some (.str s)) :
    Json.req Json.asStr? (untagged members) key = some s := by
  simp only [Json.req, untagged_lookup hnodup hkey, h, Json.asStr?_str]

theorem req_bytes (hkey : key ≠ "type") {b : Bytes}
    (h : field members key = some (Json.ofBytes b)) :
    Json.req Json.asBytes? (untagged members) key = some b := by
  simp only [Json.req, untagged_lookup hnodup hkey, h, Json.asBytes?_ofBytes]

theorem opt_absent {α : Type} (read : Json → Option α) (hkey : key ≠ "type")
    (h : key ∉ members.map Prod.fst) : Json.opt read (untagged members) key = some none := by
  have hnone : field members key = none := by
    cases hfield : field members key with
    | none => rfl
    | some j => exact absurd (mem_of_field hfield) h
  rw [Json.opt, untagged_lookup hnodup hkey, hnone]
  rfl

theorem opt_to (h : ToField members) :
    ∃ to_, Json.opt Json.asStr? (untagged members) "to" = some to_ := by
  rw [Json.opt, untagged_lookup hnodup (by decide)]
  rcases h with hnone | ⟨s, hs⟩
  · rw [hnone]
    exact ⟨none, rfl⟩
  · rw [hs]
    exact ⟨some s, rfl⟩

theorem untagged_strict {type : FrameType} (keys : List String)
    (hallowed : ∀ m ∈ members, m.1 ∈ type.allowed)
    (hkeys : ∀ key ∈ type.allowed, key ≠ "type" → key ∈ keys) :
    Json.strict keys (untagged members) = true := by
  unfold Json.strict
  rw [Bool.and_eq_true]
  refine ⟨decide_eq_true (Json.nodup_filter hnodup _), List.all_eq_true.2 fun m hm => ?_⟩
  rcases List.mem_filter.1 hm with ⟨hmem, hne⟩
  exact List.contains_iff_mem.2 (hkeys m.1 (hallowed m hmem) (bne_iff_ne.1 hne))

theorem tagged?_obj {name : String} (h : field members "type" = some (.str name)) :
    Net.Message.tagged? (.obj members) = some (name, .obj (untagged members)) := by
  have hmem : ("type", Json.str name) ∈ members := by
    rw [← Json.lookup_eq_some hnodup, ← field_eq_lookup hnodup]
    exact h
  simp only [Net.Message.tagged?, Json.filter_eq_singleton hnodup hmem]
  rfl

end Plain

end Read

/-! ## A plain frame is taken -/

/-- What every sealed message reads from its members. -/
structure SealedRead (members : Json.Members) (room : String) (epoch : UInt32) (id n ct : Bytes) :
    Prop where
  v : Json.req Json.asUInt8? members "v" = some Net.PROTOCOL_VERSION
  room : Json.req Json.asStr? members "room" = some room
  epoch : Json.req Json.asUInt32? members "epoch" = some epoch
  msgId : Json.req Json.asBytes? members "msg_id" = some id
  n : Json.req Json.asBytes? members "n" = some n
  ct : Json.req Json.asBytes? members "ct" = some ct

section SealedRead

variable {members : Json.Members} {room : String} {epoch : UInt32} {id n ct : Bytes}
  (h : SealedRead members room epoch id n ct)

include h

theorem SealedRead.clip
    (hstrict : Json.strict ["v", "room", "epoch", "msg_id", "n", "ct", "retained", "stored_at"]
      members = true)
    (hretained : Json.opt Json.asBool? members "retained" = some none)
    (hstored : Json.opt Json.asUInt64? members "stored_at" = some none) :
    Net.Message.readClip? (.obj members) =
      some ⟨Net.PROTOCOL_VERSION, room, epoch, id, n, ct, none, none⟩ := by
  unfold Net.Message.readClip?
  rw [Net.Message.structMembers_obj hstrict]
  simp only [Option.bind_eq_bind, Option.bind_some, h.v, h.room, h.epoch, h.msgId, h.n, h.ct,
    hretained, hstored]
  rfl

theorem SealedRead.chunk {idx chunkCount : UInt32}
    (hstrict : Json.strict ["v", "room", "epoch", "msg_id", "idx", "chunk_count", "n", "ct"]
      members = true)
    (hidx : Json.req Json.asUInt32? members "idx" = some idx)
    (hcount : Json.req Json.asUInt32? members "chunk_count" = some chunkCount) :
    Net.Message.readClipChunk? (.obj members) =
      some ⟨Net.PROTOCOL_VERSION, room, epoch, id, idx, chunkCount, n, ct⟩ := by
  unfold Net.Message.readClipChunk?
  rw [Net.Message.structMembers_obj hstrict]
  simp only [Option.bind_eq_bind, Option.bind_some, h.v, h.room, h.epoch, h.msgId, h.n, h.ct,
    hidx, hcount]
  rfl

theorem SealedRead.announce
    (hstrict : Json.strict ["v", "room", "epoch", "msg_id", "n", "ct"] members = true) :
    Net.Message.readAnnounce? (.obj members) =
      some ⟨Net.PROTOCOL_VERSION, room, epoch, id, n, ct⟩ := by
  unfold Net.Message.readAnnounce?
  rw [Net.Message.structMembers_obj hstrict]
  simp only [Option.bind_eq_bind, Option.bind_some, h.v, h.room, h.epoch, h.msgId, h.n, h.ct]
  rfl

theorem SealedRead.msg {to_ : Option String}
    (hstrict : Json.strict ["v", "room", "epoch", "msg_id", "n", "ct", "to"] members = true)
    (hto : Json.opt Json.asStr? members "to" = some to_) :
    Net.Message.readMsg? (.obj members) =
      some ⟨Net.PROTOCOL_VERSION, room, epoch, id, n, ct, to_⟩ := by
  unfold Net.Message.readMsg?
  rw [Net.Message.structMembers_obj hstrict]
  simp only [Option.bind_eq_bind, Option.bind_some, h.v, h.room, h.epoch, h.msgId, h.n, h.ct, hto]
  rfl

end SealedRead

section Taken

variable {message : Envelope} {maxFrameChars : Nat}

/-- The members of a plain frame make up a message of its type. -/
theorem ofJson?_plain (h : Accepted message) (hvalid : validates message maxFrameChars = true)
    (hnodup : (message.members.map Prod.fst).Nodup)
    (hplain : ∀ key n, (key, Json.num n) ∈ message.members → DigitsAlone n) :
    ∃ m, Net.Message.ofJson? (.obj message.members) = some m ∧ TakenAs message.type m := by
  rcases h.checked hvalid with ⟨-, hsealed, hposition, hto⟩
  have htagged := tagged?_obj hnodup h.type
  rcases req_u32 hnodup hplain (by decide) hsealed.epoch with ⟨epoch, hepoch⟩
  rcases hsealed.room with ⟨room, hroom⟩
  rcases hsealed.msgId with ⟨msgId, hid⟩
  rcases hsealed.n with ⟨nonce, hnonce⟩
  rcases hsealed.ct with ⟨ct, hlong, hct⟩
  have hread : SealedRead (untagged message.members) room epoch msgId.1 nonce.1 ct := {
    v := req_version hnodup hplain h.v
    room := req_str hnodup (by decide) hroom
    epoch := hepoch
    msgId := req_bytes hnodup (by decide) hid
    n := req_bytes hnodup (by decide) hnonce
    ct := req_bytes hnodup (by decide) hct }
  -- the lengths the relay checked are those a session checks
  have hheader : Net.Session.sealedHeader msgId.1 nonce.1 ct = .ok (msgId, nonce) :=
    Net.Session.sealedHeader_ok.mpr ⟨rfl, rfl, hlong⟩
  have hallowed := h.allowed
  have hofJson : Net.Message.ofJson? (.obj message.members) =
      Net.Message.ofTagged? message.type.text (.obj (untagged message.members)) := by
    simp only [Net.Message.ofJson?, htagged, Option.bind_eq_bind, Option.bind_some]
  rw [hofJson]
  have hchunk : (message.type = .clipBegin ∨ message.type = .clipChunk ∨ message.type = .clipEnd) →
      ∃ c : Net.ClipChunk, Net.Message.readClipChunk? (.obj (untagged message.members)) = some c ∧
        c.v = Net.PROTOCOL_VERSION ∧ c.msgId = msgId.1 ∧ c.n = nonce.1 ∧ c.ct = ct := by
    intro htype
    have hfields : message.type.allowed = FrameType.CHUNK_FIELDS := by
      rcases htype with htype | htype | htype <;> rw [htype] <;> rfl
    have hposition := hposition htype
    rcases req_u32 hnodup hplain (by decide) hposition.idx with ⟨idx, hidx⟩
    rcases req_u32 hnodup hplain (by decide) hposition.chunkCount with ⟨count, hcount⟩
    have hstrict := untagged_strict hnodup
      ["v", "room", "epoch", "msg_id", "idx", "chunk_count", "n", "ct"] hallowed
      (by rw [hfields]; decide)
    exact ⟨_, hread.chunk hstrict hidx hcount, rfl, rfl, rfl, rfl⟩
  unfold validates at hvalid
  cases htype : message.type with
  | clip =>
      rw [htype] at hallowed
      have hstrict := untagged_strict hnodup
        ["v", "room", "epoch", "msg_id", "n", "ct", "retained", "stored_at"] hallowed
        (by decide)
      have habsent : ∀ key, key ∉ FrameType.clip.allowed → key ∉ message.members.map Prod.fst := by
        intro key hkey hmem
        rcases List.mem_map.1 hmem with ⟨m, hm, rfl⟩
        exact hkey (hallowed m hm)
      have hclip := hread.clip hstrict
        (opt_absent hnodup _ (by decide) (habsent "retained" (by decide)))
        (opt_absent hnodup _ (by decide) (habsent "stored_at" (by decide)))
      refine ⟨.clip ⟨Net.PROTOCOL_VERSION, room, epoch, msgId.1, nonce.1, ct, none, none⟩, ?_, rfl,
        rfl, _, _, rfl, hheader⟩
      simp [FrameType.text, Net.Message.ofTagged?, hclip]
  | announce =>
      rw [htype] at hallowed
      have hstrict := untagged_strict hnodup ["v", "room", "epoch", "msg_id", "n", "ct"] hallowed
        (by decide)
      refine ⟨.announce ⟨Net.PROTOCOL_VERSION, room, epoch, msgId.1, nonce.1, ct⟩, ?_, rfl, rfl, _,
        _, rfl, hheader⟩
      simp [FrameType.text, Net.Message.ofTagged?, hread.announce hstrict]
  | msg =>
      rw [htype] at hallowed
      have hstrict := untagged_strict hnodup ["v", "room", "epoch", "msg_id", "n", "ct", "to"]
        hallowed (by decide)
      rcases opt_to hnodup (hto htype) with ⟨dest, hdest⟩
      refine ⟨.msg ⟨Net.PROTOCOL_VERSION, room, epoch, msgId.1, nonce.1, ct, dest⟩, ?_, rfl, rfl, _,
        _, rfl, hheader⟩
      simp [FrameType.text, Net.Message.ofTagged?, hread.msg hstrict hdest]
  | clipBegin =>
      rcases hchunk (.inl htype) with ⟨c, hc, hv, hcid, hcn, hcct⟩
      refine ⟨.clipBegin c, ?_, rfl, hv, _, (msgId, nonce), rfl, ?_⟩
      · simp [FrameType.text, Net.Message.ofTagged?, hc]
      · rw [hcid, hcn, hcct]
        exact hheader
  | clipChunk =>
      rcases hchunk (.inr (.inl htype)) with ⟨c, hc, hv, hcid, hcn, hcct⟩
      refine ⟨.clipChunk c, ?_, rfl, hv, _, (msgId, nonce), rfl, ?_⟩
      · simp [FrameType.text, Net.Message.ofTagged?, hc]
      · rw [hcid, hcn, hcct]
        exact hheader
  | clipEnd =>
      rcases hchunk (.inr (.inr htype)) with ⟨c, hc, hv, hcid, hcn, hcct⟩
      refine ⟨.clipEnd c, ?_, rfl, hv, _, (msgId, nonce), rfl, ?_⟩
      · simp [FrameType.text, Net.Message.ofTagged?, hc]
      · rw [hcid, hcn, hcct]
        exact hheader
  | hello | auth | fetchLast | ping | pong =>
      rw [htype] at hvalid
      cases hvalid

end Taken

/-! ## A frame that is taken is plain -/

/-- A number read from the member is written in digits alone. -/
def DigitsIn (members : Json.Members) (key : String) : Prop :=
  ∀ n, members.lookup key = some (.num n) → DigitsAlone n

section Refused

variable {members : Json.Members} {key : String}

theorem digitsIn_of_asNat? (h : ∀ j, members.lookup key = some j → j.asNat?.isSome = true) :
    DigitsIn members key := by
  intro n hn
  rcases Option.isSome_iff_exists.1 (h _ hn) with ⟨k, hk⟩
  exact digitsAlone_of_asNat? hk

theorem digitsIn_of_req8 {x : UInt8} (h : Json.req Json.asUInt8? members key = some x) :
    DigitsIn members key := by
  apply digitsIn_of_asNat?
  intro j hj
  simp only [Json.req, hj, Json.asUInt8?] at h
  cases hnat : j.asNat? with
  | none =>
      rw [hnat] at h
      cases h
  | some k => rfl

theorem digitsIn_of_req32 {x : UInt32} (h : Json.req Json.asUInt32? members key = some x) :
    DigitsIn members key := by
  apply digitsIn_of_asNat?
  intro j hj
  simp only [Json.req, hj, Json.asUInt32?] at h
  cases hnat : j.asNat? with
  | none =>
      rw [hnat] at h
      cases h
  | some k => rfl

theorem structMembers_some {keys : List String} {spare : Nat} {ms : Json.Members}
    (h : Net.Message.structMembers keys spare (.obj members) = some ms) :
    (members.map Prod.fst).Nodup ∧ ms = members := by
  simp only [Net.Message.structMembers] at h
  split at h
  · rename_i hstrict
    exact ⟨of_decide_eq_true (Bool.and_eq_true_iff.1 hstrict).1, (Option.some.inj h).symm⟩
  · cases h

/-- A receiver read the members: none is repeated, and its integers are digits alone. -/
structure StrictlyRead (members : Json.Members) (numbers : List String) : Prop where
  nodup : (members.map Prod.fst).Nodup
  digits : ∀ key ∈ numbers, DigitsIn members key

theorem readClip?_strict {c : Net.Clip} (h : Net.Message.readClip? (.obj members) = some c) :
    StrictlyRead members ["v", "epoch"] := by
  unfold Net.Message.readClip? at h
  simp only [Option.bind_eq_bind, Option.bind_eq_some_iff] at h
  rcases h with ⟨ms, hms, v, hv, room, -, epoch, hepoch, -⟩
  rcases structMembers_some hms with ⟨hnodup, rfl⟩
  refine ⟨hnodup, fun key hkey => ?_⟩
  simp only [List.mem_cons, List.not_mem_nil, or_false] at hkey
  rcases hkey with rfl | rfl
  · exact digitsIn_of_req8 hv
  · exact digitsIn_of_req32 hepoch

theorem readAnnounce?_strict {m : Net.Announce}
    (h : Net.Message.readAnnounce? (.obj members) = some m) :
    StrictlyRead members ["v", "epoch"] := by
  unfold Net.Message.readAnnounce? at h
  simp only [Option.bind_eq_bind, Option.bind_eq_some_iff] at h
  rcases h with ⟨ms, hms, v, hv, room, -, epoch, hepoch, -⟩
  rcases structMembers_some hms with ⟨hnodup, rfl⟩
  refine ⟨hnodup, fun key hkey => ?_⟩
  simp only [List.mem_cons, List.not_mem_nil, or_false] at hkey
  rcases hkey with rfl | rfl
  · exact digitsIn_of_req8 hv
  · exact digitsIn_of_req32 hepoch

theorem readMsg?_strict {m : Net.Msg} (h : Net.Message.readMsg? (.obj members) = some m) :
    StrictlyRead members ["v", "epoch"] := by
  unfold Net.Message.readMsg? at h
  simp only [Option.bind_eq_bind, Option.bind_eq_some_iff] at h
  rcases h with ⟨ms, hms, v, hv, room, -, epoch, hepoch, -⟩
  rcases structMembers_some hms with ⟨hnodup, rfl⟩
  refine ⟨hnodup, fun key hkey => ?_⟩
  simp only [List.mem_cons, List.not_mem_nil, or_false] at hkey
  rcases hkey with rfl | rfl
  · exact digitsIn_of_req8 hv
  · exact digitsIn_of_req32 hepoch

theorem readClipChunk?_strict {c : Net.ClipChunk}
    (h : Net.Message.readClipChunk? (.obj members) = some c) :
    StrictlyRead members NUMBERS := by
  unfold Net.Message.readClipChunk? at h
  simp only [Option.bind_eq_bind, Option.bind_eq_some_iff] at h
  rcases h with ⟨ms, hms, v, hv, room, -, epoch, hepoch, msgId, -, idx, hidx, count, hcount, -⟩
  rcases structMembers_some hms with ⟨hnodup, rfl⟩
  refine ⟨hnodup, fun key hkey => ?_⟩
  simp only [NUMBERS, List.mem_cons, List.not_mem_nil, or_false] at hkey
  rcases hkey with rfl | rfl | rfl | rfl
  · exact digitsIn_of_req8 hv
  · exact digitsIn_of_req32 hepoch
  · exact digitsIn_of_req32 hidx
  · exact digitsIn_of_req32 hcount

theorem mem_field {j : Json} (h : field members key = some j) : (key, j) ∈ members := by
  have hmem : ∀ ms : Json.Members, ms.lookup key = some j → (key, j) ∈ ms := by
    intro ms
    induction ms with
    | nil => exact fun h => nomatch h
    | cons m ms ih =>
        rcases m with ⟨other, v⟩
        intro hlookup
        rw [List.lookup_cons] at hlookup
        by_cases hkey : key = other
        · rw [hkey, beq_self_eq_true] at hlookup
          rw [hkey, Option.some.inj hlookup]
          exact List.mem_cons_self
        · rw [beq_false_of_ne hkey] at hlookup
          exact List.mem_cons_of_mem _ (ih hlookup)
  exact List.mem_reverse.1 (hmem _ h)

/-- The one tag a receiver takes is the one the relay read. -/
theorem tagged?_some {name kind : String} {body : Json}
    (htype : field members "type" = some (.str name))
    (h : Net.Message.tagged? (.obj members) = some (kind, body)) :
    kind = name ∧ body = .obj (untagged members) ∧
      ∃ only, (members.filter fun m => m.1 == "type") = [only] := by
  simp only [Net.Message.tagged?] at h
  split at h
  · rename_i tag found hfilter
    cases h
    have hmem : ("type", Json.str name) ∈ members.filter fun m => m.1 == "type" :=
      List.mem_filter.2 ⟨mem_field htype, rfl⟩
    rw [hfilter] at hmem
    have hsame := Prod.mk.inj (List.mem_singleton.1 hmem)
    exact ⟨(Json.str.inj hsame.2).symm, rfl, _, hfilter⟩
  · cases h

end Refused

section Taken

variable {message : Envelope} {maxFrameChars : Nat}

/-- Members a receiver reads as a forwarded type are not repeated, and their numbers are digits
alone. -/
theorem plain_of_ofJson? (h : Accepted message) (hvalid : validates message maxFrameChars = true)
    {m : Net.Message} (hm : Net.Message.ofJson? (.obj message.members) = some m) :
    (message.members.map Prod.fst).Nodup ∧
      ∀ key n, (key, Json.num n) ∈ message.members → DigitsAlone n := by
  have hchecked := (h.checked hvalid).1
  simp only [Net.Message.ofJson?, Option.bind_eq_bind, Option.bind_eq_some_iff] at hm
  rcases hm with ⟨⟨kind, body⟩, htagged, hread⟩
  rcases tagged?_some h.type htagged with ⟨rfl, rfl, only, honly⟩
  -- each type's reader
  have hstrict : ∃ numbers, StrictlyRead (untagged message.members) numbers ∧
      ∀ key ∈ NUMBERS, key ∈ message.type.allowed → key ∈ numbers := by
    simp only at hread
    unfold validates at hvalid
    cases htype : message.type with
    | clip =>
        rw [htype] at hread
        simp [FrameType.text, Net.Message.ofTagged?] at hread
        rcases hread with ⟨c, hc, -⟩
        exact ⟨_, readClip?_strict hc, by decide⟩
    | announce =>
        rw [htype] at hread
        simp [FrameType.text, Net.Message.ofTagged?] at hread
        rcases hread with ⟨c, hc, -⟩
        exact ⟨_, readAnnounce?_strict hc, by decide⟩
    | msg =>
        rw [htype] at hread
        simp [FrameType.text, Net.Message.ofTagged?] at hread
        rcases hread with ⟨c, hc, -⟩
        exact ⟨_, readMsg?_strict hc, by decide⟩
    | clipBegin | clipChunk | clipEnd =>
        rw [htype] at hread
        simp [FrameType.text, Net.Message.ofTagged?] at hread
        rcases hread with ⟨c, hc, -⟩
        exact ⟨_, readClipChunk?_strict hc, by decide⟩
    | hello | auth | fetchLast | ping | pong =>
        rw [htype] at hvalid
        cases hvalid
  rcases hstrict with ⟨numbers, hstrict, hnumbers⟩
  have hnodup := Json.nodup_of_parts honly hstrict.nodup
  refine ⟨hnodup, fun key n hmem => ?_⟩
  have hkey : key ∈ message.members.map Prod.fst := List.mem_map.2 ⟨_, hmem, rfl⟩
  have hfield : field message.members key = some (.num n) := by
    rw [field_eq_lookup hnodup]
    exact (Json.lookup_eq_some hnodup).2 hmem
  rcases hchecked key hkey with ⟨hnumber, -⟩ | ⟨s, hs⟩
  · have hne : key ≠ "type" := by
      rintro rfl
      exact absurd hnumber (by decide)
    apply hstrict.digits key (hnumbers key hnumber (h.allowed _ hmem)) n
    rw [untagged_lookup hnodup hne]
    exact hfield
  · rw [hfield] at hs
    cases hs

end Taken

/-! ## The bytes -/

section Bytes

theorem lossy_of_fromUtf8? {b : Bytes} {text : String} (h : fromUtf8? b = some text) :
    Utf8.lossy b = text := by
  rw [eq_utf8_of_fromUtf8? h]
  exact Utf8.lossy_bytes text

/-- The relay read the members of an object out of a text that is UTF-8. -/
theorem parseBytes_ok {raw : Bytes} {maxFrameBytes : Nat} {message : Envelope} {text : String}
    (h : parseBytes raw maxFrameBytes = .ok message) (htext : fromUtf8? raw = some text) :
    Accepted message ∧ ∃ members, JsonGrammar.parse text = some (.obj members) ∧
      message.members = RawJson.lossyMembers members := by
  unfold parseBytes at h
  split at h
  · cases h
  · rcases parseFrame_ok h with ⟨hparse, haccepted⟩
    rw [lossy_of_fromUtf8? htext] at hparse
    rcases Option.map_eq_some_iff.1 hparse with ⟨j, hj, hlossy⟩
    refine ⟨haccepted, ?_⟩
    -- only an object is read as one
    cases j with
    | obj members => exact ⟨members, hj, (Json.obj.inj hlossy).symm⟩
    | null | bool b | num n | str s | arr items =>
        rw [RawJson.lossy] at hlossy
        cases hlossy

/-- No name of a field has a character that stands for what could not be read. -/
theorem replacement_not_allowed : ∀ type : FrameType, ∀ key ∈ type.allowed,
    StrPiece.REPLACEMENT ∉ key.toList := by
  intro type
  cases type <;> decide

theorem strict_of_allowed {type : FrameType} {key : List StrPiece}
    (h : String.ofList (StrPiece.lossy key) ∈ type.allowed) :
    (StrPiece.strict key).isSome = true := by
  cases hstrict : StrPiece.strict key with
  | some cs => rfl
  | none =>
      have hmem := StrPiece.replacement_of_strict hstrict
      refine absurd ?_ (replacement_not_allowed type _ h)
      rwa [String.toList_ofList]

end Bytes

section Members

variable {message : Envelope} {maxFrameChars : Nat} {members : List (List StrPiece × RawJson)}

/-- The value of a member the relay let through is read strictly when it is plain. -/
theorem strict_of_plain (h : Accepted message) (hvalid : validates message maxFrameChars = true)
    (heq : message.members = RawJson.lossyMembers members)
    (hnodup : (message.members.map Prod.fst).Nodup) {m : List StrPiece × RawJson}
    (hm : m ∈ members) (hplain : PlainValue m.2) (depth : Nat) :
    (m.2.strict depth).isSome = true := by
  have hmem : (String.ofList (StrPiece.lossy m.1), m.2.lossy) ∈ message.members := by
    rw [heq, RawJson.lossyMembers_eq_map]
    exact List.mem_map.2 ⟨m, hm, rfl⟩
  have hfield : field message.members (String.ofList (StrPiece.lossy m.1)) = some m.2.lossy := by
    rw [field_eq_lookup hnodup]
    exact (Json.lookup_eq_some hnodup).2 hmem
  -- the relay read a number there, or a string
  have hchecked := (h.checked hvalid).1 _ (List.mem_map.2 ⟨_, hmem, rfl⟩)
  rw [hfield] at hchecked
  rcases m with ⟨key, j⟩
  simp only at hchecked hplain ⊢
  cases j with
  | num n =>
      rcases hchecked with ⟨-, k, hk, -⟩ | ⟨s, hs⟩
      · rcases double_isSome hk with ⟨n', hn', hdouble⟩
        rw [RawJson.lossy] at hn'
        cases hn'
        rw [RawJson.strict, if_pos hdouble]
        rfl
      · rw [RawJson.lossy] at hs
        cases hs
  | str s =>
      rw [RawJson.strict, Option.isSome_map]
      exact hplain
  | null | bool b | arr items | obj inner =>
      rw [RawJson.lossy] at hchecked
      rcases hchecked with ⟨-, k, hk, -⟩ | ⟨s, hs⟩
      · rcases double_isSome hk with ⟨n', hn', -⟩
        cases hn'
      · cases hs

theorem strictMembers_plain (h : Accepted message) (hvalid : validates message maxFrameChars = true)
    (heq : message.members = RawJson.lossyMembers members)
    (hnodup : (message.members.map Prod.fst).Nodup) (hplain : ∀ m ∈ members, PlainValue m.2)
    (depth : Nat) : RawJson.strictMembers depth members = some message.members := by
  rw [heq]
  apply RawJson.strictMembers_isSome
  intro m hm
  refine ⟨?_, strict_of_plain h hvalid heq hnodup hm (hplain m hm) depth⟩
  have hmem : (String.ofList (StrPiece.lossy m.1), m.2.lossy) ∈ message.members := by
    rw [heq, RawJson.lossyMembers_eq_map]
    exact List.mem_map.2 ⟨m, hm, rfl⟩
  exact strict_of_allowed (h.allowed _ hmem)

end Members

/-! ## A session goes on -/

section Handled

variable (P : Primitives) {s : Net.Session} {nowMs : UInt64}

theorem finishImage_ok (s : Net.Session) (msgId : Core.MsgId) (a : Assembly) (nowMs : UInt64) :
    ∃ actions, (s.finishImage msgId a nowMs).2 = .ok actions := by
  unfold Net.Session.finishImage
  split
  · exact ⟨_, rfl⟩
  · simp only
    split
    · exact ⟨_, rfl⟩
    · split <;> exact ⟨_, rfl⟩

theorem onClip_ok {clip : Net.Clip} {ids : Core.MsgId × Nonce} (hready : s.phase = .ready)
    (h : Net.Session.sealedHeader clip.msgId clip.n clip.ct = .ok ids) :
    ∃ actions, (s.onClip P clip nowMs).2 = .ok actions := by
  unfold Net.Session.onClip
  rw [if_neg (not_not.2 hready), h]
  simp only
  split
  · exact ⟨_, rfl⟩
  · split
    · exact ⟨_, rfl⟩
    · split
      · exact ⟨_, rfl⟩
      · split
        · exact ⟨_, rfl⟩
        · split
          · exact ⟨_, rfl⟩
          · split <;> exact ⟨_, rfl⟩

theorem onChunk_ok {chunk : Net.ClipChunk} {ids : Core.MsgId × Nonce} (hready : s.phase = .ready)
    (h : Net.Session.sealedHeader chunk.msgId chunk.n chunk.ct = .ok ids) :
    ∃ actions, (s.onChunk P chunk nowMs).2 = .ok actions := by
  unfold Net.Session.onChunk
  rw [if_neg (not_not.2 hready), h]
  simp only
  split
  · exact ⟨_, rfl⟩
  · split
    · exact ⟨_, rfl⟩
    · split
      · exact ⟨_, rfl⟩
      · split
        · exact ⟨_, rfl⟩
        · split
          · exact ⟨_, rfl⟩
          · split
            · exact ⟨_, rfl⟩
            · exact finishImage_ok _ _ _ _

theorem onAnnounce_ok {m : Net.Announce} {ids : Core.MsgId × Nonce} (hready : s.phase = .ready)
    (h : Net.Session.sealedHeader m.msgId m.n m.ct = .ok ids) :
    ∃ actions, (s.onAnnounce P m nowMs).2 = .ok actions := by
  unfold Net.Session.onAnnounce
  rw [if_neg (not_not.2 hready), h]
  simp only
  split
  · exact ⟨_, rfl⟩
  · split
    · exact ⟨_, rfl⟩
    · split
      · exact ⟨_, rfl⟩
      · split
        · exact ⟨_, rfl⟩
        · split <;> exact ⟨_, rfl⟩

theorem onMsg_ok {m : Net.Msg} {ids : Core.MsgId × Nonce} (hready : s.phase = .ready)
    (h : Net.Session.sealedHeader m.msgId m.n m.ct = .ok ids) :
    ∃ actions, (s.onMsg P m nowMs).2 = .ok actions := by
  unfold Net.Session.onMsg
  rw [if_neg (not_not.2 hready), h]
  simp only
  split
  · exact ⟨_, rfl⟩
  · split
    · exact ⟨_, rfl⟩
    · split
      · exact ⟨_, rfl⟩
      · split <;> exact ⟨_, rfl⟩

/-- Whatever a sealed message opens to, its handler gives no error once its lengths are right. -/
theorem handleMessage_ok {m : Net.Message} {parts : Bytes × Bytes × Bytes}
    {ids : Core.MsgId × Nonce} {draws : Net.FrameDraws} (hready : s.phase = .ready)
    (hparts : sealedParts m = some parts)
    (h : Net.Session.sealedHeader parts.1 parts.2.1 parts.2.2 = .ok ids) :
    ∃ actions, (s.handleMessage P m nowMs draws).2 = .ok actions := by
  cases m with
  | clip m =>
      cases hparts
      exact onClip_ok P hready h
  | clipBegin m | clipChunk m | clipEnd m =>
      cases hparts
      exact onChunk_ok P hready h
  | announce m =>
      cases hparts
      exact onAnnounce_ok P hready h
  | msg m =>
      cases hparts
      exact onMsg_ok P hready h
  | hello m | challenge m | auth m | authOk m | authFail m | fetchLast m | presence m | ping m
  | pong m | error m => cases hparts

end Handled

theorem handled_of_taken {raw : Bytes} {type : FrameType} (h : Taken raw type) : Handled raw := by
  rcases h with ⟨text, m, htext, hparse, -, hversion, parts, ids, hparts, hheader⟩
  refine ⟨text, htext, fun P s nowMs draws hready => ?_⟩
  unfold Net.Session.handleFrame
  rw [hparse]
  simp only
  rw [if_neg (not_not.2 hversion)]
  exact handleMessage_ok P hready hparts hheader

/-! ## Taken exactly when plain -/

section Main

variable {raw : Bytes} {maxFrameBytes maxFrameChars : Nat} {message : Envelope}

theorem taken_of_plain (h : parseBytes raw maxFrameBytes = .ok message)
    (hvalid : validates message maxFrameChars = true) (hplain : PlainFrame raw) :
    Taken raw message.type := by
  rcases hplain with ⟨text, members, htext, hparse, hnodup, hvalues⟩
  rcases parseBytes_ok h htext with ⟨haccepted, members', hparse', heq⟩
  have hsame : members' = members := by
    rw [hparse] at hparse'
    exact (RawJson.obj.inj (Option.some.inj hparse')).symm
  rw [hsame] at heq
  rw [← heq] at hnodup
  have hdigits : ∀ key n, (key, Json.num n) ∈ message.members → DigitsAlone n := by
    intro key n hmem
    rw [heq, RawJson.lossyMembers_eq_map] at hmem
    rcases List.mem_map.1 hmem with ⟨⟨k, j⟩, hm, hpair⟩
    have hvalue := hvalues _ hm
    have hlossy := (Prod.mk.inj hpair).2
    simp only at hlossy hvalue
    cases j with
    | num n' =>
        rw [RawJson.lossy] at hlossy
        cases hlossy
        exact hvalue
    | null | bool b | str s | arr items | obj inner =>
        rw [RawJson.lossy] at hlossy
        cases hlossy
  rcases ofJson?_plain haccepted hvalid hnodup hdigits with ⟨m, hm, htaken⟩
  refine ⟨text, m, htext, ?_, htaken⟩
  have hserde : Net.serdeJson.parse text = some (.obj message.members) := by
    show (JsonGrammar.parse text).bind (RawJson.strict Net.RECURSION_LIMIT) = _
    rw [hparse, Option.bind_some, RawJson.strict, if_neg (by decide),
      strictMembers_plain haccepted hvalid heq hnodup hvalues]
    rfl
  unfold Net.Message.parse
  rw [hserde]
  simp only [hm]

theorem plain_of_taken (h : parseBytes raw maxFrameBytes = .ok message)
    (hvalid : validates message maxFrameChars = true) (htaken : Taken raw message.type) :
    PlainFrame raw := by
  rcases htaken with ⟨text, m, htext, hm, -⟩
  rcases parseBytes_ok h htext with ⟨haccepted, members, hparse, heq⟩
  have hserde : Net.serdeJson.parse text =
      (RawJson.strictMembers (Net.RECURSION_LIMIT - 1) members).map Json.obj := by
    show (JsonGrammar.parse text).bind (RawJson.strict Net.RECURSION_LIMIT) = _
    rw [hparse, Option.bind_some, RawJson.strict, if_neg (by decide)]
  unfold Net.Message.parse at hm
  rw [hserde] at hm
  cases hstrict : RawJson.strictMembers (Net.RECURSION_LIMIT - 1) members with
  | none =>
      rw [hstrict] at hm
      cases hm
  | some ms =>
      -- read strictly, the members are those the relay read
      have hms : ms = message.members := by
        rw [heq]
        exact (RawJson.lossyMembers_of_strict members _ ms hstrict).symm
      rw [hstrict, hms, Option.map_some] at hm
      have hof : ∃ m, Net.Message.ofJson? (.obj message.members) = some m := by
        simp only at hm
        split at hm
        · rename_i found hfound
          exact ⟨found, hfound⟩
        · split at hm
          · split at hm <;> cases hm
          · cases hm
      rcases hof with ⟨found, hfound⟩
      rcases plain_of_ofJson? haccepted hvalid hfound with ⟨hnodup, hdigits⟩
      rw [heq] at hnodup hdigits
      refine ⟨text, members, htext, hparse, hnodup, fun m hm => ?_⟩
      have hvalue := (RawJson.strict_of_members hstrict m hm).2
      rcases m with ⟨key, j⟩
      cases j with
      | num n =>
          apply hdigits (String.ofList (StrPiece.lossy key))
          rw [RawJson.lossyMembers_eq_map]
          exact List.mem_map.2 ⟨_, hm, rfl⟩
      | str s =>
          simp only [RawJson.strict, Option.isSome_map] at hvalue
          exact hvalue
      | null | bool b | arr items | obj inner => trivial

/-- A frame the relay accepts is taken by receivers, and handled, exactly when it is plain. -/
theorem receivers_take_iff (h : parseBytes raw maxFrameBytes = .ok message)
    (hvalid : validates message maxFrameChars = true) :
    Taken raw message.type ∧ Handled raw ↔ PlainFrame raw := by
  constructor
  · exact fun htaken => plain_of_taken h hvalid htaken.1
  · intro hplain
    have htaken := taken_of_plain h hvalid hplain
    exact ⟨htaken, handled_of_taken htaken⟩

end Main

/-! ### Frames a program prints -/

section Printed

/-- The bytes of an object's compact text. -/
def printed (members : Json.Members) : Bytes :=
  utf8 (Json.obj members).text

/-- The relay reads a printed object back. -/
theorem parseBytes_printed {type : FrameType} {members : Json.Members}
    (hplain : (Json.obj members).Plain Net.RECURSION_LIMIT)
    (hv : asInteger (field members "v") = some 1)
    (htype : asString (field members "type") = some type.text)
    (hallowed : (members.all fun m => type.allowed.contains m.1) = true) :
    parseBytes (printed members) (printed members).length = .ok ⟨type, members⟩ := by
  have htext : Utf8.lossy (printed members) = (Json.obj members).text := Utf8.lossy_bytes _
  have hkind : FrameType.ofText? type.text = some type := by
    cases type <;> rfl
  unfold parseBytes
  rw [if_neg (Nat.lt_irrefl _), htext]
  unfold parseFrame
  rw [if_neg (Nat.lt_irrefl _), jsonParse_text hplain]
  simp only
  rw [if_neg (not_not.2 hv), htype]
  simp only [hkind, hallowed, if_true]

/-- A printed object is plain but for members that are repeated. -/
theorem plainFrame_printed {members : Json.Members}
    (hplain : (Json.obj members).Plain Net.RECURSION_LIMIT) :
    PlainFrame (printed members) ↔ (members.map Prod.fst).Nodup := by
  have htext : fromUtf8? (printed members) = some (Json.obj members).text := fromUtf8?_utf8 _
  have hparse : JsonGrammar.parse (Json.obj members).text =
      some (.obj (RawJson.ofMembers members)) :=
    JsonGrammar.parse_text hplain
  have hvalues : ∀ (d : Nat) (ms : Json.Members), Json.PlainMembers d ms →
      ∀ m ∈ RawJson.ofMembers ms, PlainValue m.2 := by
    intro d ms hms
    induction ms with
    | nil => exact fun m hm => nomatch hm
    | cons first ms ih =>
        rcases first with ⟨key, j⟩
        rcases hms with ⟨hj, hms⟩
        intro m hm
        rcases List.mem_cons.1 hm with rfl | hm
        · cases j with
          | num n => exact ⟨hj.1, hj.2.1, hj.2.2.1⟩
          | str s =>
              show (StrPiece.strict (s.toList.map pieceOf)).isSome = true
              rw [strict_pieceOf]
              rfl
          | null | bool b | arr items | obj inner => trivial
        · exact ih hms m hm
  constructor
  · rintro ⟨text, ms, htext', hparse', hnodup, -⟩
    rw [htext] at htext'
    cases htext'
    rw [hparse] at hparse'
    cases hparse'
    rwa [RawJson.lossyMembers_ofMembers] at hnodup
  · intro hnodup
    refine ⟨_, _, htext, hparse, ?_, hvalues _ members hplain.2⟩
    rwa [RawJson.lossyMembers_ofMembers]

/-- The members of a clip; each is all zeros. -/
def zeroClip : Json.Members :=
  [("v", Json.ofNat 1), ("type", .str "clip"), ("room", .str "00000000000000000000000000"),
    ("epoch", Json.ofNat 0), ("msg_id", Json.ofBytes (List.replicate 16 0)),
    ("n", Json.ofBytes (List.replicate 24 0)), ("ct", Json.ofBytes (List.replicate 17 0))]

theorem zeroClip_plain : (Json.obj zeroClip).Plain Net.RECURSION_LIMIT := by
  simp [zeroClip, Json.Plain, Json.PlainMembers, Json.ofNat, Json.ofBytes, Net.RECURSION_LIMIT]

theorem zeroClip_parses :
    parseBytes (printed zeroClip) (printed zeroClip).length = .ok ⟨.clip, zeroClip⟩ :=
  parseBytes_printed zeroClip_plain (asInteger_ofNat (n := 1) (by decide)) rfl rfl

theorem zeroClip_validates : validates ⟨.clip, zeroClip⟩ 64 = true := by
  decide +kernel

/-- The same clip with its version said twice. -/
def twiceClip : Json.Members :=
  ("v", Json.ofNat 1) :: zeroClip

theorem twiceClip_plain : (Json.obj twiceClip).Plain Net.RECURSION_LIMIT := by
  simp [twiceClip, zeroClip, Json.Plain, Json.PlainMembers, Json.ofNat, Json.ofBytes,
    Net.RECURSION_LIMIT]

theorem twiceClip_parses :
    parseBytes (printed twiceClip) (printed twiceClip).length = .ok ⟨.clip, twiceClip⟩ :=
  parseBytes_printed twiceClip_plain (asInteger_ofNat (n := 1) (by decide)) rfl rfl

theorem twiceClip_validates : validates ⟨.clip, twiceClip⟩ 64 = true := by
  decide +kernel

/-- The clip of zeros is plain, and so it is taken. -/
theorem receivers_take_iff_zero : PlainFrame (printed zeroClip) ∧
    (Taken (printed zeroClip) .clip ∧ Handled (printed zeroClip) ↔ PlainFrame (printed zeroClip)) :=
  ⟨(plainFrame_printed zeroClip_plain).2 (by decide +kernel),
    receivers_take_iff zeroClip_parses zeroClip_validates⟩

/-- The relay lets a repeated version through, and no receiver reads the frame. -/
theorem twice_not_taken : ¬ ∀ (raw : Bytes) (maxFrameBytes maxFrameChars : Nat)
    (message : Envelope), parseBytes raw maxFrameBytes = .ok message →
      validates message maxFrameChars = true → Taken raw message.type ∧ Handled raw := by
  intro h
  have htaken := (h _ _ _ _ twiceClip_parses twiceClip_validates).1
  have hplain := plain_of_taken twiceClip_parses twiceClip_validates htaken
  exact absurd ((plainFrame_printed twiceClip_plain).1 hplain) (by decide +kernel)

end Printed

end Relay
end Asli
