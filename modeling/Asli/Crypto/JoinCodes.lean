import Asli.Core.Echo
import Asli.Crypto.Base32Codec
import Asli.Crypto.Enroll
import Asli.Logic.Slices
import Asli.Logic.Spread

/-!
# JoinCodes — a join code as it is typed, `asli-crypto/src/enroll.rs`

A code is printed as a prefix and thirty-six base32 symbols, and read back from whatever a person
made of it.  `parse` takes a text apart with checked slices: `none` is a panic.
-/

namespace Asli
namespace Crypto

open Logic

abbrev CHECKSUM_LEN : Nat := 3
def CODE_PREFIX : String := "asli2_"
def CODE_VERSION : UInt8 := 2
def CODE_BODY_CHARS : Nat := 36
def LABEL_CHECK : Bytes := utf8 "asli/v2/join-check"

variable (P : Primitives)

def checksum (payload : Bytes) : ByteArr CHECKSUM_LEN :=
  hashPrefix P CHECKSUM_LEN (by decide) (LABEL_CHECK ++ payload)

/-- `str::eq_ignore_ascii_case`. -/
def eqIgnoreAsciiCase (a b : List Char) : Bool :=
  a.map Char.toLower == b.map Char.toLower

namespace JoinCode

/-- What the checksum is over. -/
def payload (code : JoinCode) : Bytes :=
  CODE_VERSION :: (code.meetingSecret.1 ++ code.fingerprint.1)

/-- The code as typed: `asli2_` and 36 characters. -/
def encode (code : JoinCode) : String :=
  CODE_PREFIX ++ Base32.encode (code.payload ++ (checksum P code.payload).1)

/-- What a typed text is rid of before it is read. -/
def isGap (c : Char) : Bool :=
  Core.isWhite c || c == '-'

/-- The bytes of a code, taken apart. -/
def read (decoded : Bytes) : Option (Except Error JoinCode) :=
  if decoded.length ≠ 1 + MEETING_SECRET_LEN + FINGERPRINT_LEN + CHECKSUM_LEN then
    some (.error .tokenLength)
  else do
    let version ← decoded[0]?
    if version ≠ CODE_VERSION then return .error (.tokenVersion version)
    let split := decoded.length - CHECKSUM_LEN
    let body ← part? decoded 0 split
    let sum ← part? decoded split decoded.length
    if (checksum P body).1 ≠ sum then return .error .tokenChecksum
    -- `copy_from_slice` takes a slice of the very length
    let meetingSecret ← part? decoded 1 (MEETING_SECRET_LEN + 1)
    let meetingSecret ← ByteArr.ofBytes? MEETING_SECRET_LEN meetingSecret
    let fp ← part? decoded (1 + MEETING_SECRET_LEN) split
    let fp ← ByteArr.ofBytes? FINGERPRINT_LEN fp
    return .ok ⟨meetingSecret, fp⟩

def compacted (input : String) : List Char :=
  input.toList.filter fun c => !isGap c

def parse (input : String) : Option (Except Error JoinCode) :=
  let compact := compacted input
  if byteLen compact < byteLen CODE_PREFIX.toList then some (.error .tokenPrefix)
  -- `is_char_boundary`, before either slice is taken
  else if (splitAtByte compact (byteLen CODE_PREFIX.toList)).isNone then
    some (.error .tokenPrefix)
  else do
    let (head, body) ← splitAtByte compact (byteLen CODE_PREFIX.toList)
    if !eqIgnoreAsciiCase head CODE_PREFIX.toList then return .error .tokenPrefix
    if byteLen body ≠ CODE_BODY_CHARS then return .error .tokenLength
    match Base32.decode (String.ofList body) with
    | .error _ => return .error .tokenAlphabet
    | .ok decoded => read P decoded

/-! ## The bytes of a code -/

/-- Twenty-two bytes are a version, a secret, a fingerprint and a checksum, and every slice of them
is there. -/
theorem read_parts (v : UInt8) (secret : ByteArr MEETING_SECRET_LEN)
    (fp : ByteArr FINGERPRINT_LEN) (sum : ByteArr CHECKSUM_LEN) :
    read P (v :: (secret.1 ++ fp.1) ++ sum.1) = some
      (if v ≠ CODE_VERSION then .error (.tokenVersion v)
      else if (checksum P (v :: (secret.1 ++ fp.1))).1 ≠ sum.1 then .error .tokenChecksum
      else .ok ⟨secret, fp⟩) := by
  have hsecret := secret.2
  have hfp := fp.2
  have hsum := sum.2
  have hlength : (v :: (secret.1 ++ fp.1) ++ sum.1).length =
      1 + MEETING_SECRET_LEN + FINGERPRINT_LEN + CHECKSUM_LEN := by
    simp only [List.cons_append, List.length_cons, List.length_append, hsecret, hfp, hsum]
    omega
  have hbody : part? (v :: (secret.1 ++ fp.1) ++ sum.1) 0 19 = some (v :: (secret.1 ++ fp.1)) := by
    have h := part?_middle [] (v :: (secret.1 ++ fp.1)) sum.1
    rwa [List.length_nil, Nat.zero_add, List.length_cons, List.length_append, hsecret, hfp] at h
  have hlast : part? (v :: (secret.1 ++ fp.1) ++ sum.1) 19 22 = some sum.1 := by
    have h := part?_middle (v :: (secret.1 ++ fp.1)) sum.1 []
    rwa [List.append_nil, List.length_cons, List.length_append, hsecret, hfp, hsum] at h
  have hfirst : part? (v :: (secret.1 ++ fp.1) ++ sum.1) 1 13 = some secret.1 := by
    have h := part?_middle [v] secret.1 (fp.1 ++ sum.1)
    rwa [List.length_singleton, hsecret, ← List.append_assoc, ← List.append_assoc] at h
  have hsecond : part? (v :: (secret.1 ++ fp.1) ++ sum.1) 13 19 = some fp.1 := by
    have h := part?_middle (v :: secret.1) fp.1 sum.1
    rwa [List.length_cons, hsecret, hfp, ← List.append_assoc] at h
  have hversion : (v :: (secret.1 ++ fp.1) ++ sum.1)[0]? = some v := rfl
  have hsplit : 1 + MEETING_SECRET_LEN + FINGERPRINT_LEN + CHECKSUM_LEN - CHECKSUM_LEN = 19 := rfl
  have htotal : 1 + MEETING_SECRET_LEN + FINGERPRINT_LEN + CHECKSUM_LEN = 22 := rfl
  have hmiddle : 1 + MEETING_SECRET_LEN = 13 := rfl
  rw [read, if_neg (not_not.mpr hlength), hlength, hsplit, htotal, hmiddle]
  simp only [hversion, hbody, hlast, hfirst, hsecond, Option.bind_eq_bind, Option.bind_some,
    ByteArr.ofBytes?_val]
  by_cases hv : v ≠ CODE_VERSION
  · rw [if_pos hv, if_pos hv]
    rfl
  · rw [if_neg hv, if_neg hv]
    by_cases hchecksum : (checksum P (v :: (secret.1 ++ fp.1))).1 ≠ sum.1
    · rw [if_pos hchecksum, if_pos hchecksum]
      rfl
    · rw [if_neg hchecksum, if_neg hchecksum]
      rfl

/-- Bytes of the right number are such parts. -/
theorem parts_of_length {decoded : Bytes}
    (h : decoded.length = 1 + MEETING_SECRET_LEN + FINGERPRINT_LEN + CHECKSUM_LEN) :
    ∃ (v : UInt8) (secret : ByteArr MEETING_SECRET_LEN) (fp : ByteArr FINGERPRINT_LEN)
      (sum : ByteArr CHECKSUM_LEN), decoded = v :: (secret.1 ++ fp.1) ++ sum.1 := by
  cases decoded with
  | nil => cases h
  | cons v rest =>
      have hrest : rest.length = 21 := Nat.succ_inj.mp h
      refine ⟨v, ⟨rest.take 12, ?_⟩, ⟨(rest.drop 12).take 6, ?_⟩, ⟨rest.drop 18, ?_⟩, ?_⟩
      · rw [List.length_take, hrest]
        rfl
      · rw [List.length_take, List.length_drop, hrest]
        rfl
      · rw [List.length_drop, hrest]
      · have hlast : rest.drop 18 = (rest.drop 12).drop 6 := by rw [List.drop_drop]
        dsimp only
        rw [List.cons_append, hlast, List.append_assoc, List.take_append_drop,
          List.take_append_drop]

theorem read_payload (code : JoinCode) :
    read P (code.payload ++ (checksum P code.payload).1) = some (.ok code) := by
  rw [payload, read_parts, if_neg (not_not.mpr rfl), if_neg (not_not.mpr rfl)]

/-- Every byte string is read to an end, and a code comes only from its own bytes. -/
theorem read_some (decoded : Bytes) :
    ∃ result, read P decoded = some result ∧ ∀ code, result = .ok code ↔
      decoded = code.payload ++ (checksum P code.payload).1 := by
  by_cases hlength : decoded.length = 1 + MEETING_SECRET_LEN + FINGERPRINT_LEN + CHECKSUM_LEN
  · rcases parts_of_length hlength with ⟨v, secret, fp, sum, rfl⟩
    refine ⟨_, read_parts P v secret fp sum, ?_⟩
    intro code
    constructor
    · intro h
      split at h
      · cases h
      rename_i hv
      split at h
      · cases h
      rename_i hchecksum
      cases h
      rw [not_not] at hv hchecksum
      subst hv
      rw [payload, hchecksum]
    · intro h
      have hread := read_payload P code
      rw [← h, read_parts] at hread
      exact Option.some.inj hread
  · refine ⟨.error .tokenLength, ?_, ?_⟩
    · rw [read, if_pos hlength]
    · intro code
      constructor
      · rintro ⟨⟩
      · rintro rfl
        apply absurd _ hlength
        rw [payload, List.length_append, List.length_cons, List.length_append,
          code.meetingSecret.2, code.fingerprint.2, (checksum P _).2]
        omega

/-! ## The spellings of a code -/

/-- The letter itself, in either case. -/
def SameLetter (written typed : Char) : Prop :=
  typed = written ∨ typed = written.toLower ∨ typed = written.toUpper

/-- A symbol in either case, or a letter that is taken for the zero or the one. -/
def LooksLike (written typed : Char) : Prop :=
  SameLetter written typed ∨
    (written = '0' ∧ (typed = 'O' ∨ typed = 'o')) ∨
    (written = '1' ∧ (typed = 'I' ∨ typed = 'i' ∨ typed = 'L' ∨ typed = 'l'))

/-- `input` is `text` retyped: white space and dashes anywhere, letters in either case, and after
the prefix look-alikes. -/
def Retyped (text input : String) : Prop :=
  ∃ front back, input.toList = front ++ back ∧
    Spread (fun c => isGap c = true) SameLetter front (text.toList.take 6) ∧
    Spread (fun c => isGap c = true) LooksLike back (text.toList.drop 6)

instance (written typed : Char) : Decidable (SameLetter written typed) :=
  inferInstanceAs (Decidable (_ ∨ _))

instance (written typed : Char) : Decidable (LooksLike written typed) :=
  inferInstanceAs (Decidable (_ ∨ _))

theorem codePrefix_eq : CODE_PREFIX.toList = ['a', 's', 'l', 'i', '2', '_'] :=
  String.toList_ofList

theorem toUpper_of_not_ascii {c : Char} (h : ¬c.toNat < 128) : c.toUpper = c := by
  unfold Char.toUpper
  rw [dif_neg]
  rintro ⟨-, hle⟩
  have hnat : c.toNat ≤ 'z'.toNat := UInt32.le_iff_toNat_le.mp hle
  exact h (Nat.lt_of_le_of_lt hnat (by decide))

theorem toLower_of_not_ascii {c : Char} (h : ¬c.toNat < 128) : c.toLower = c := by
  unfold Char.toLower
  rw [dif_neg]
  rintro ⟨-, hle⟩
  have hnat : c.toNat ≤ 'Z'.toNat := UInt32.le_iff_toNat_le.mp hle
  exact h (Nat.lt_of_le_of_lt hnat (by decide))

theorem toLower_ascii {c : Char} (h : c.toNat < 128) :
    c.toLower.toNat < 128 ∧ c.toUpper.toNat < 128 := by
  rw [← Char.ofNat_toNat c]
  generalize c.toNat = n at h
  revert n
  decide +kernel

theorem SameLetter.ascii {written typed : Char} (h : SameLetter written typed)
    (hwritten : written.toNat < 128) : typed.toNat < 128 := by
  rcases h with rfl | rfl | rfl
  · exact hwritten
  · exact (toLower_ascii hwritten).1
  · exact (toLower_ascii hwritten).2

theorem LooksLike.ascii {written typed : Char} (h : LooksLike written typed)
    (hwritten : written.toNat < 128) : typed.toNat < 128 := by
  rcases h with h | ⟨-, rfl | rfl⟩ | ⟨-, rfl | rfl | rfl | rfl⟩
  · exact h.ascii hwritten
  all_goals decide

/-- A letter of the prefix is recognized in either case. -/
theorem sameLetter_iff {written : Char} (h : written ∈ CODE_PREFIX.toList) (typed : Char) :
    SameLetter written typed ↔ typed.toLower = written.toLower := by
  rw [codePrefix_eq] at h
  have hwritten : written.toNat < 128 :=
    forall_mem_of_all (p := fun w => w.toNat < 128) (by decide) written h
  by_cases htyped : typed.toNat < 128
  · rw [← Char.ofNat_toNat typed]
    generalize typed.toNat = n at htyped
    refine forall_mem_of_all
      (p := fun w => SameLetter w (Char.ofNat n) ↔ (Char.ofNat n).toLower = w.toLower) ?_ written h
    revert n
    decide +kernel
  · -- neither side holds of a character beyond ASCII
    rw [toLower_of_not_ascii htyped]
    constructor
    · intro hsame
      exact absurd (hsame.ascii hwritten) htyped
    · rintro rfl
      exact absurd (toLower_ascii hwritten).1 htyped

/-- The decoder folds what looks like a symbol into it, and nothing else. -/
theorem looksLike_iff {written : Char} (h : written ∈ Base32.ALPHABET) (typed : Char) :
    LooksLike written typed ↔ Base32.fold typed = written := by
  have hwritten := Base32.alphabet_ascii written h
  rw [Base32.alphabet_eq] at h
  by_cases htyped : typed.toNat < 128
  · rw [← Char.ofNat_toNat typed]
    generalize typed.toNat = n at htyped
    refine forall_mem_of_all
      (p := fun w => LooksLike w (Char.ofNat n) ↔ Base32.fold (Char.ofNat n) = w) ?_ written h
    revert n
    decide +kernel
  · have hfold : Base32.fold typed = typed := by
      have hne : ∀ c : Char, c.toNat < 128 → typed ≠ c := by
        rintro c hc rfl
        exact htyped hc
      simp only [Base32.fold, toUpper_of_not_ascii htyped, hne 'O' (by decide),
        hne 'I' (by decide), hne 'L' (by decide), or_self, if_false]
    rw [hfold]
    constructor
    · intro hlooks
      exact absurd (hlooks.ascii hwritten) htyped
    · rintro rfl
      exact absurd hwritten htyped

theorem codePrefix_not_gap : ∀ w ∈ CODE_PREFIX.toList,
    ¬isGap w = true ∧ ¬isGap w.toLower = true ∧ ¬isGap w.toUpper = true := by
  rw [codePrefix_eq]
  exact forall_mem_of_all (by decide +kernel)

theorem alphabet_not_gap : ∀ w ∈ Base32.ALPHABET,
    ¬isGap w = true ∧ ¬isGap w.toLower = true ∧ ¬isGap w.toUpper = true := by
  rw [Base32.alphabet_eq]
  exact forall_mem_of_all (by decide +kernel)

theorem SameLetter.not_gap {written typed : Char} (h : SameLetter written typed)
    (hwritten : ¬isGap written = true ∧ ¬isGap written.toLower = true ∧
      ¬isGap written.toUpper = true) : ¬isGap typed = true := by
  rcases h with rfl | rfl | rfl
  · exact hwritten.1
  · exact hwritten.2.1
  · exact hwritten.2.2

theorem LooksLike.not_gap {written typed : Char} (h : LooksLike written typed)
    (hwritten : written ∈ Base32.ALPHABET) : ¬isGap typed = true := by
  rcases h with hsame | ⟨-, rfl | rfl⟩ | ⟨-, rfl | rfl | rfl | rfl⟩
  · exact hsame.not_gap (alphabet_not_gap written hwritten)
  all_goals decide +kernel

/-! ## What `parse` reads -/

/-- The letters of a code's spelling. -/
structure Letters (code : JoinCode) (head body : List Char) : Prop where
  head : List.Forall₂ SameLetter CODE_PREFIX.toList head
  body : List.Forall₂ LooksLike
    (Base32.encode (code.payload ++ (checksum P code.payload).1)).toList body

theorem encode_toList (code : JoinCode) :
    (code.encode P).toList.take 6 = CODE_PREFIX.toList ∧
      (code.encode P).toList.drop 6 =
        (Base32.encode (code.payload ++ (checksum P code.payload).1)).toList := by
  have hlength : CODE_PREFIX.toList.length = 6 := by
    rw [codePrefix_eq]
    rfl
  rw [encode, String.toList_append]
  exact ⟨List.take_left' hlength, List.drop_left' hlength⟩

theorem symbolOf_mem {v : Nat} (hv : v < 32) : Base32.symbolOf v ∈ Base32.ALPHABET := by
  have hlt : v < Base32.ALPHABET.length := by
    rw [Base32.alphabet_length]
    exact hv
  rw [Base32.symbolOf, List.getD_eq_getElem _ _ hlt]
  exact List.getElem_mem hlt

theorem mem_alphabet {b : Bytes} {c : Char} (h : c ∈ (Base32.encode b).toList) :
    c ∈ Base32.ALPHABET := by
  rcases Base32.encode_values b with ⟨vs, pad, htext, hsmall, -⟩
  rw [htext] at h
  rcases List.mem_map.mp h with ⟨v, hv, rfl⟩
  exact symbolOf_mem (hsmall v hv)

/-- A retyped code is the letters of its spelling, once the gaps are out. -/
theorem retyped_iff (code : JoinCode) (input : String) :
    Retyped (code.encode P) input ↔
      ∃ head body, compacted input = head ++ body ∧ Letters P code head body := by
  have hfilter : compacted input = input.toList.filter fun c => ¬isGap c = true := by
    apply List.filter_congr
    intro c _
    cases isGap c <;> rfl
  rcases encode_toList P code with ⟨htake, hdrop⟩
  rw [Retyped, htake, hdrop, hfilter]
  constructor
  · rintro ⟨front, back, hinput, hfront, hback⟩
    refine ⟨_, _, ?_, hfront.letters ?_, hback.letters ?_⟩
    · rw [hinput, List.filter_append]
    · intro w hw c hsame
      exact hsame.not_gap (codePrefix_not_gap _ hw)
    · intro w hw c hlooks
      exact hlooks.not_gap (mem_alphabet hw)
  · rintro ⟨head, body, hinput, hhead, hbody⟩
    rcases List.filter_eq_append_iff.mp hinput with ⟨front, back, hsplit, hfront, hback⟩
    refine ⟨front, back, hsplit, Spread.of_letters ?_, Spread.of_letters ?_⟩
    · rw [hfront]
      exact hhead
    · rw [hback]
      exact hbody

variable {P}

theorem forall₂_ascii {same : Char → Char → Prop} {text typed : List Char}
    (h : List.Forall₂ same text typed)
    (hascii : ∀ w ∈ text, ∀ c, same w c → c.toNat < 128) : ∀ c ∈ typed, c.toNat < 128 := by
  induction h with
  | nil => exact fun c hc => absurd hc List.not_mem_nil
  | cons hfirst _ ih =>
      rcases List.forall_mem_cons.mp hascii with ⟨hhead, hrest⟩
      exact List.forall_mem_cons.mpr ⟨hhead _ hfirst, ih hrest⟩

theorem Letters.byteLen_head {code : JoinCode} {head body : List Char}
    (h : Letters P code head body) : byteLen head = byteLen CODE_PREFIX.toList := by
  have hstart : ∀ w ∈ CODE_PREFIX.toList, w.toNat < 128 := by
    rw [codePrefix_eq]
    exact forall_mem_of_all (by decide)
  rw [byteLen_ascii (forall₂_ascii h.head fun w hw c hc => hc.ascii (hstart w hw)),
    byteLen_ascii hstart, h.head.length_eq]

/-- What looks like symbols is ASCII. -/
theorem byteLen_looksLike {text typed : List Char} (h : List.Forall₂ LooksLike text typed)
    (htext : ∀ w ∈ text, w ∈ Base32.ALPHABET) : byteLen typed = text.length := by
  rw [byteLen_ascii, h.length_eq]
  apply forall₂_ascii h
  intro w hw c hc
  exact hc.ascii (Base32.alphabet_ascii w (htext w hw))

theorem Letters.byteLen_body {code : JoinCode} {head body : List Char}
    (h : Letters P code head body) : byteLen body = CODE_BODY_CHARS := by
  rw [byteLen_looksLike h.body fun w => mem_alphabet, String.length_toList, Base32.encode_length, payload, List.length_append,
    List.length_cons, List.length_append, code.meetingSecret.2, code.fingerprint.2,
    (checksum P _).2]
  rfl

/-- A body has no dashes, so the decoder drops nothing of it. -/
theorem symbols_body {body : List Char} (h : ∀ c ∈ body, ¬isGap c = true) :
    Base32.symbols (String.ofList body) = body := by
  rw [Base32.symbols, String.toList_ofList, List.filter_eq_self]
  intro c hc
  apply decide_eq_true
  rintro rfl
  exact h '-' hc (by decide)

theorem not_gap_of_compacted {input : String} {c : Char} (h : c ∈ compacted input) :
    ¬isGap c = true := by
  have hkept := (List.mem_filter.mp h).2
  rwa [Bool.not_eq_true', ← Bool.not_eq_true] at hkept

/-- The letters of a code are read as the code. -/
theorem parse_of_letters {code : JoinCode} {input : String} {head body : List Char}
    (hinput : compacted input = head ++ body) (h : Letters P code head body) :
    parse P input = some (.ok code) := by
  have hsplit : splitAtByte (compacted input) (byteLen CODE_PREFIX.toList) = some (head, body) :=
    splitAtByte_iff.mpr ⟨hinput, h.byteLen_head⟩
  have hlong : ¬byteLen (compacted input) < byteLen CODE_PREFIX.toList := by
    rw [hinput, byteLen_append, h.byteLen_head]
    omega
  have hhead : eqIgnoreAsciiCase head CODE_PREFIX.toList = true :=
    beq_iff_eq.mpr ((forall₂_iff_map (fun w hw c => sameLetter_iff hw c) head).mp h.head)
  have hbody : Base32.canonical (String.ofList body) =
      (Base32.encode (code.payload ++ (checksum P code.payload).1)).toList := by
    have hgaps : ∀ c ∈ body, ¬isGap c = true := fun c hc =>
      not_gap_of_compacted (hinput ▸ List.mem_append_right head hc)
    have hmap := (forall₂_iff_map
      (fun w hw c => looksLike_iff (mem_alphabet hw) c) body).mp h.body
    rw [Base32.canonical, symbols_body hgaps, hmap, List.map_id']
  rw [parse]
  simp only [if_neg hlong, hsplit, Option.isNone_some, Bool.false_eq_true, if_false,
    Option.bind_eq_bind, Option.bind_some, hhead, Bool.not_true, h.byteLen_body, ne_eq,
    not_true_eq_false, Base32.decode_of_canonical hbody, read_payload]

/-- A body of thirty-six symbols is spelled as what it decodes to. -/
theorem looksLike_of_decode {body : List Char} {decoded : Bytes}
    (hgaps : ∀ c ∈ body, ¬isGap c = true) (hbody : byteLen body = CODE_BODY_CHARS)
    (h : Base32.decode (String.ofList body) = .ok decoded) :
    List.Forall₂ LooksLike (Base32.encode decoded).toList body := by
  rcases Base32.decode_ok_iff.mp h with ⟨vs, hvs, -⟩
  have hmap := hvs
  rw [symbols_body hgaps, Base32.symbolValues_iff] at hmap
  rcases hmap with ⟨hsmall, hmap⟩
  have hsymbols : ∀ w ∈ vs.map fun v => Base32.symbolOf v.toNat, w ∈ Base32.ALPHABET := by
    intro w hw
    rcases List.mem_map.mp hw with ⟨v, hv, rfl⟩
    exact symbolOf_mem (hsmall v hv)
  have hlooks : List.Forall₂ LooksLike (vs.map fun v => Base32.symbolOf v.toNat) body := by
    rw [forall₂_iff_map (g := id) fun w hw c => looksLike_iff (hsymbols w hw) c, List.map_id]
    exact hmap
  -- so many symbols leave four bits, not a whole symbol
  have hcount : vs.length = 36 := by
    have hlength := byteLen_looksLike hlooks hsymbols
    rw [hbody, List.length_map] at hlength
    exact hlength.symm
  have hcanonical := Base32.canonical_of_decode h hvs (by rw [hcount]; decide)
  rw [Base32.canonical, symbols_body hgaps] at hcanonical
  rw [forall₂_iff_map (g := id) fun w hw c => looksLike_iff (mem_alphabet hw) c, List.map_id]
  exact hcanonical

/-- Every text is read to an end, and a code comes only from the letters of its spelling. -/
theorem parse_some (input : String) :
    ∃ result, parse P input = some result ∧ ∀ code, result = .ok code →
      ∃ head body, compacted input = head ++ body ∧ Letters P code head body := by
  rw [parse]
  dsimp only
  by_cases hlong : byteLen (compacted input) < byteLen CODE_PREFIX.toList
  · rw [if_pos hlong]
    exact ⟨_, rfl, fun code hcode => by cases hcode⟩
  rw [if_neg hlong]
  cases hsplit : splitAtByte (compacted input) (byteLen CODE_PREFIX.toList) with
  | none =>
      rw [Option.isNone_none, if_pos rfl]
      exact ⟨_, rfl, fun code hcode => by cases hcode⟩
  | some sides =>
      rcases sides with ⟨head, body⟩
      rcases splitAtByte_iff.mp hsplit with ⟨hinput, -⟩
      rw [Option.isNone_some, if_neg Bool.false_ne_true, Option.bind_eq_bind, Option.bind_some]
      dsimp only
      cases hhead : eqIgnoreAsciiCase head CODE_PREFIX.toList with
      | false => exact ⟨_, rfl, fun code hcode => by cases hcode⟩
      | true =>
          by_cases hbody : byteLen body = CODE_BODY_CHARS
          · cases hdecode : Base32.decode (String.ofList body) with
            | error e =>
                simp only [Bool.not_true, Bool.false_eq_true, if_false, hbody, ne_eq,
                  not_true_eq_false]
                exact ⟨_, rfl, fun code hcode => by cases hcode⟩
            | ok decoded =>
                simp only [Bool.not_true, Bool.false_eq_true, if_false, hbody, ne_eq,
                  not_true_eq_false]
                rcases read_some P decoded with ⟨result, hresult, hcodes⟩
                refine ⟨result, hresult, ?_⟩
                intro code hcode
                have hgaps : ∀ c ∈ body, ¬isGap c = true := fun c hc =>
                  not_gap_of_compacted (hinput ▸ List.mem_append_right head hc)
                refine ⟨head, body, hinput, ?_, ?_⟩
                · rw [forall₂_iff_map fun w hw c => sameLetter_iff hw c]
                  exact beq_iff_eq.mp hhead
                · rw [← (hcodes code).mp hcode]
                  exact looksLike_of_decode hgaps hbody hdecode
          · simp only [Bool.not_true, Bool.false_eq_true, if_false, hbody, ne_eq,
              not_false_eq_true, if_true]
            exact ⟨_, rfl, fun code hcode => by cases hcode⟩

variable (P)

/-- A code survives retyping, and nothing but its spellings is read as it. -/
theorem codes_survive_retyping :
    (∀ (code : JoinCode) (input : String), Retyped (code.encode P) input →
      parse P input = some (.ok code)) ∧
    ∀ input, ∃ result, parse P input = some result ∧
      ∀ code, result = .ok code → Retyped (code.encode P) input := by
  constructor
  · intro code input h
    rcases (retyped_iff P code input).mp h with ⟨head, body, hinput, hletters⟩
    exact parse_of_letters hinput hletters
  · intro input
    rcases parse_some (P := P) input with ⟨result, hresult, hcodes⟩
    refine ⟨result, hresult, ?_⟩
    intro code hcode
    exact (retyped_iff P code input).mpr (hcodes code hcode)

end JoinCode

end Crypto
end Asli
