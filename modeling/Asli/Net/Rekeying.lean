import Asli.Net.ImageStream

/-!
# Rekeying — who may change the account key on this device

A new-key bundle does one of two things to the device it reaches: it hands over the new key, or,
when the device is not among its recipients, it takes the device off the account.

* `deliver_keyChanges` — a frame changes the key only through the bundle it opens to.
* `Authentic` — what a bundle has to satisfy before either may happen.
* `rekey_authentic` — over any stream of frames every key change is authentic exactly when no
  genuine bundle that leaves this device out arrives past its window.
-/

namespace Asli
namespace Net

open Logic
open Crypto (Primitives Identity DeviceKeys Key)
open Core (DeviceId MsgId)

/-! ## The key changes of a result -/

/-- Whether an action replaces the account key, or takes this device off the account. -/
def Action.changesKey : Action → Bool
  | .rekeyed _ _ _ => true
  | .removedBy _ => true
  | _ => false

/-- The key changes a call hands to the caller. -/
def keyChanges : Except Error (List Action) → List Action
  | .ok actions => actions.filter Action.changesKey
  | .error _ => []

@[simp] theorem keyChanges_error (e : Error) : keyChanges (.error e) = [] := rfl

@[simp] theorem keyChanges_ok (actions : List Action) :
    keyChanges (.ok actions) = actions.filter Action.changesKey := rfl

@[simp] theorem filter_send (frames : List Message) :
    (frames.map Action.send).filter Action.changesKey = [] := by
  induction frames with
  | nil => rfl
  | cons m frames ih => exact ih

namespace Session

variable (P : Primitives) (T : JsonText)

/-! ## Bundles that reach a session -/

/-- The bundle a frame carries, when it gets as far as being read: a message of this room that was
not seen before and that opens under the account key. -/
def rekeyBody (s : Session) (frame : String) : Option Bytes :=
  match frameOf T frame with
  | some (.msg m) =>
      if s.phase ≠ .ready then none
      else
        match sealedHeader m.msgId m.n m.ct with
        | .error _ => none
        | .ok (msgId, nonce) =>
            if m.room ≠ s.identity.roomId P ∨ !s.epochIsAcceptable m.epoch then none
            else if msgId ∈ s.msgSeen then none
            else
              match Crypto.Msg.open_ P (s.identity.encKey P m.epoch) m.epoch
                (s.identity.roomIdBytes P) msgId nonce m.ct with
              | .ok (.rekey, body) => some body
              | _ => none
  | _ => none

/-- The claimed sender and the layout of a bundle: the sender has a pinned card, and the signature
verifies under the pinned key for this room. -/
def signedBundle (s : Session) (body : Bytes) : Option (DeviceId × Crypto.Rekey.Bundle) := do
  let from_ ← (Crypto.Rekey.sender body).toOption
  let pinned ← s.known.lookup from_
  let covered ← (Crypto.verifyTail P Crypto.Rekey.LABEL_REKEY (s.identity.roomIdBytes P) body
    pinned.signPub).toOption
  let b ← (Crypto.Rekey.readBundle covered).toOption
  return (from_, b)

/-- What a key change has to satisfy: the bundle is genuine and within the freshness window of the
session's clock.  A new key is the one sealed to this device; a removal names this device in no
entry. -/
def Authentic (s : Session) (body : Bytes) (nowMs : UInt64) : Action → Prop
  | .rekeyed secret by_ kept =>
      ∃ keys b sealed, s.deviceKeys = some keys ∧ s.signedBundle P body = some (by_, b) ∧
        fresh nowMs b.tsMs = true ∧ (s.deviceId, sealed) ∈ b.boxes ∧
        keys.openBox P Crypto.Rekey.LABEL_REKEY sealed = .ok (1 :: secret.1) ∧
        kept = b.recipients
  | .removedBy by_ =>
      ∃ b, s.signedBundle P body = some (by_, b) ∧ fresh nowMs b.tsMs = true ∧
        s.deviceId ∉ b.recipients
  | _ => True

/-- A genuine bundle that leaves this device out, past its window. -/
def StaleRemoval (s : Session) (body : Bytes) (nowMs : UInt64) : Prop :=
  s.deviceKeys.isSome ∧ ∃ from_ b, s.signedBundle P body = some (from_, b) ∧
    s.deviceId ∉ b.recipients ∧ fresh nowMs b.tsMs = false

/-- The key changes `on_rekey` makes of a bundle. -/
def bundleChanges (s : Session) (body : Bytes) (nowMs : UInt64) : List Action :=
  match s.deviceKeys, s.signedBundle P body with
  | some keys, some (from_, b) =>
      match b.boxFor s.deviceId with
      | none => [.removedBy from_]
      | some sealed =>
          match Crypto.Rekey.openEntry P keys sealed with
          | .error _ => []
          | .ok secret => if fresh nowMs b.tsMs then [.rekeyed secret from_ b.recipients] else []
  | _, _ => []

variable {P T}

theorem onRekey_filter (s : Session) (body : Bytes) (nowMs : UInt64) :
    (s.onRekey P body nowMs).filter Action.changesKey = s.bundleChanges P body nowMs := by
  rw [onRekey, bundleChanges]
  cases s.deviceKeys with
  | none => rfl
  | some keys =>
  unfold signedBundle
  cases Crypto.Rekey.sender body with
  | error e => rfl
  | ok from_ =>
  cases hpin : s.known.lookup from_ with
  | none =>
      simp only [Except.toOption, Option.bind_eq_bind, Option.bind_some, hpin, Option.bind_none]
      rfl
  | some pinned =>
  simp only [Except.toOption, Option.bind_eq_bind, Option.bind_some, hpin, Crypto.Rekey.open_eq]
  cases Crypto.verifyTail P Crypto.Rekey.LABEL_REKEY (s.identity.roomIdBytes P) body
      pinned.signPub with
  | error e => rfl
  | ok covered =>
  simp only [Result.ok_bind, Option.bind_some]
  cases Crypto.Rekey.readBundle covered with
  | error e => rfl
  | ok b =>
  simp only [Result.ok_bind, Option.bind_some, Option.pure_def]
  cases b.boxFor s.deviceId with
  | none => rfl
  | some sealed =>
  simp only
  cases Crypto.Rekey.openEntry P keys sealed with
  | error e => rfl
  | ok secret =>
  -- only an entry that opens is held to the window
  show (if fresh nowMs b.tsMs then _ else _ : List Action).filter _ = _
  cases fresh nowMs b.tsMs <;> rfl

/-! ## Frames that carry no bundle -/

theorem introduce_keyChanges (s : Session) (actions : List Action) (nowMs : UInt64)
    (draws : FrameDraws) (hactions : actions.filter Action.changesKey = []) :
    keyChanges (s.introduce P actions nowMs draws).2 = [] := by
  unfold introduce
  generalize s.announceFrame P nowMs draws.announce = a
  obtain ⟨t, announce⟩ := a
  cases announce with
  | error e => rfl
  | ok announce =>
      simp only
      generalize t.cardFrame P nowMs draws.card = c
      obtain ⟨u, card⟩ := c
      cases card with
      | error e => rfl
      | ok card => simp [hactions]

theorem onChallenge_keyChanges (s : Session) (c : Challenge) (nowMs : UInt64)
    (nonceC : Option (ByteArr 16)) : keyChanges (s.onChallenge P c nowMs nonceC).2 = [] := by
  unfold onChallenge
  split
  · rfl
  split
  · rfl
  split
  · rfl
  split
  · rfl
  refine orFail_rule (p := fun r => keyChanges r.2 = []) (fun e => rfl) fun pair => ?_
  simp only [keyChanges_ok, List.filter_append]
  split <;> rfl

theorem onClip_keyChanges (s : Session) (clip : Clip) (nowMs : UInt64) :
    keyChanges (s.onClip P clip nowMs).2 = [] := by
  unfold onClip
  split
  · rfl
  split
  · rfl
  split
  · rfl
  split
  · rfl
  split
  · rfl
  simp only
  split
  · rfl
  split
  · rfl
  split <;> rfl

theorem finishImage_keyChanges (s : Session) (msgId : MsgId) (a : Crypto.Assembly)
    (nowMs : UInt64) : keyChanges (s.finishImage msgId a nowMs).2 = [] := by
  unfold finishImage
  split
  · rfl
  simp only
  split
  · rfl
  split <;> rfl

theorem onChunk_keyChanges (s : Session) (chunk : ClipChunk) (nowMs : UInt64) :
    keyChanges (s.onChunk P chunk nowMs).2 = [] := by
  unfold onChunk
  split
  · rfl
  split
  · rfl
  split
  · rfl
  simp only
  split
  · rfl
  split
  · rfl
  split
  · rfl
  split
  · rfl
  split
  · rfl
  · exact finishImage_keyChanges _ _ _ _

theorem onAnnounce_keyChanges (s : Session) (m : Announce) (nowMs : UInt64) :
    keyChanges (s.onAnnounce P m nowMs).2 = [] := by
  unfold onAnnounce
  repeat' split
  all_goals rfl

theorem onCard_keyChanges (s : Session) (body : Bytes) (nowMs : UInt64) :
    (s.onCard P body nowMs).2.filter Action.changesKey = [] := by
  unfold onCard
  repeat' (first | split | simp only)
  all_goals rfl

/-- Whatever a frame is, the key changes it makes are those of the bundle it carries. -/
theorem deliver_keyChanges (s : Session) (d : Delivery) :
    keyChanges (s.deliver P T d).2 =
      match s.rekeyBody P T d.frame with
      | some body => s.bundleChanges P body d.nowMs
      | none => [] := by
  unfold deliver rekeyBody
  cases hframe : frameOf T d.frame with
  | none =>
      have hparse := hframe
      unfold frameOf at hparse
      unfold handleFrame
      cases hp : Message.parse T d.frame with
      | error e => rfl
      | ok n =>
          simp only [hp] at hparse ⊢
          split at hparse
          · rename_i hversion
            rw [if_pos hversion]
            rfl
          · cases hparse
  | some m =>
  rw [handleFrame_some hframe]
  cases m with
  | msg m =>
      simp only [handleMessage, onMsg]
      split
      · rfl
      cases sealedHeader m.msgId m.n m.ct with
      | error e => rfl
      | ok header =>
      simp only
      split
      · rfl
      split
      · rfl
      cases Crypto.Msg.open_ P (s.identity.encKey P m.epoch) m.epoch (s.identity.roomIdBytes P)
          header.1 header.2 m.ct with
      | error e => rfl
      | ok opened =>
      obtain ⟨kind, body⟩ := opened
      cases kind with
      | card => exact onCard_keyChanges _ body d.nowMs
      | rekey => exact onRekey_filter _ body d.nowMs
      | _ => rfl
  | challenge c => exact onChallenge_keyChanges s c d.nowMs _
  | authOk ok => exact introduce_keyChanges _ _ _ _ rfl
  | clip c => exact onClip_keyChanges s c d.nowMs
  | clipBegin c => exact onChunk_keyChanges s c d.nowMs
  | clipChunk c => exact onChunk_keyChanges s c d.nowMs
  | clipEnd c => exact onChunk_keyChanges s c d.nowMs
  | presence presence =>
      simp only [handleMessage]
      split
      · exact introduce_keyChanges _ _ _ _ rfl
      · rfl
  | announce announce => exact onAnnounce_keyChanges s announce d.nowMs
  | error err =>
      simp only [handleMessage]
      split
      · rfl
      split <;> rfl
  | _ => rfl

/-! ## Authenticity -/

theorem boxFor_mem {b : Crypto.Rekey.Bundle} {deviceId : DeviceId} {sealed : Bytes}
    (h : b.boxFor deviceId = some sealed) : (deviceId, sealed) ∈ b.boxes := by
  -- whatever the fold holds came from a box already passed, or from the start
  have hfold : ∀ (boxes : List (DeviceId × Bytes)) (mine : Option Bytes),
      boxes.foldl (fun mine box => if box.1 = deviceId then some box.2 else mine) mine =
        some sealed → mine = some sealed ∨ (deviceId, sealed) ∈ boxes := by
    intro boxes
    induction boxes with
    | nil => exact fun mine h => Or.inl h
    | cons box boxes ih =>
        intro mine h
        rcases ih _ h with hmine | hmem
        · dsimp only at hmine
          split at hmine
          · rename_i hid
            cases hmine
            rw [← hid]
            exact Or.inr List.mem_cons_self
          · exact Or.inl hmine
        · exact Or.inr (List.mem_cons_of_mem _ hmem)
  rcases hfold b.boxes none h with hnone | hmem
  · cases hnone
  · exact hmem

theorem boxFor_eq_none {b : Crypto.Rekey.Bundle} {deviceId : DeviceId} :
    b.boxFor deviceId = none ↔ deviceId ∉ b.recipients := by
  have hfold : ∀ (boxes : List (DeviceId × Bytes)) (mine : Option Bytes),
      boxes.foldl (fun mine box => if box.1 = deviceId then some box.2 else mine) mine = none ↔
        mine = none ∧ deviceId ∉ boxes.map Prod.fst := by
    intro boxes
    induction boxes with
    | nil => intro mine; simp
    | cons box boxes ih =>
        intro mine
        rw [List.foldl_cons, ih]
        by_cases hid : box.1 = deviceId
        · simp [hid]
        · simp [hid, Ne.symm hid]
  rw [Crypto.Rekey.Bundle.boxFor, hfold]
  exact and_iff_right rfl

theorem openEntry_ok {keys : DeviceKeys} {sealed : Bytes} {secret : Key}
    (h : Crypto.Rekey.openEntry P keys sealed = .ok secret) :
    keys.openBox P Crypto.Rekey.LABEL_REKEY sealed = .ok (1 :: secret.1) := by
  rcases Result.bind_ok h with ⟨inner, hopen, hinner⟩
  rw [hopen]
  split at hinner
  · split at hinner
    · rename_i hbytes
      cases hinner
      rw [ByteArr.ofBytes?_eq_some.mp hbytes]
    · cases hinner
  · cases hinner

/-- One bundle: each of its key changes is authentic exactly when it is no stale removal. -/
theorem bundleChanges_authentic (s : Session) (body : Bytes) (nowMs : UInt64) :
    (∀ a ∈ s.bundleChanges P body nowMs, s.Authentic P body nowMs a) ↔
      ¬ s.StaleRemoval P body nowMs := by
  constructor
  · rintro hall ⟨hkeys, from_, b, hbundle, hout, hstale⟩
    rcases Option.isSome_iff_exists.mp hkeys with ⟨keys, hkeys⟩
    -- with no entry for this device the removal is emitted without a look at the clock
    have hchange : s.bundleChanges P body nowMs = [.removedBy from_] := by
      rw [bundleChanges, hkeys, hbundle]
      simp only [boxFor_eq_none.mpr hout]
    rcases hall (.removedBy from_) (by rw [hchange]; exact List.mem_cons_self) with
      ⟨b', hbundle', hfresh, -⟩
    rw [hbundle] at hbundle'
    cases hbundle'
    rw [hstale] at hfresh
    cases hfresh
  · intro hno a ha
    unfold bundleChanges at ha
    split at ha
    · rename_i keys from_ b hkeys hbundle
      split at ha
      · rename_i hbox
        cases List.mem_singleton.mp ha
        have hout := boxFor_eq_none.mp hbox
        refine ⟨b, hbundle, ?_, hout⟩
        by_contra hstale
        exact hno ⟨by rw [hkeys]; rfl, from_, b, hbundle, hout, by simpa using hstale⟩
      · rename_i sealed hbox
        split at ha
        · cases ha
        · rename_i secret hopen
          split at ha
          · rename_i hfresh
            cases List.mem_singleton.mp ha
            exact ⟨keys, b, sealed, hkeys, hbundle, hfresh, boxFor_mem hbox, openEntry_ok hopen,
              rfl⟩
          · cases ha
    · cases ha

/-- Over any stream of frames, from any session: every key change comes from a bundle that is
authentic where it arrives, exactly when no bundle of the stream is a stale removal there. -/
theorem rekey_authentic (s : Session) (ds : List Delivery) :
    (∀ k d, ds[k]? = some d →
      ∀ a ∈ keyChanges ((s.after P T (ds.take k)).deliver P T d).2,
        ∃ body, (s.after P T (ds.take k)).rekeyBody P T d.frame = some body ∧
          (s.after P T (ds.take k)).Authentic P body d.nowMs a) ↔
    (∀ k d, ds[k]? = some d →
      ∀ body, (s.after P T (ds.take k)).rekeyBody P T d.frame = some body →
        ¬ (s.after P T (ds.take k)).StaleRemoval P body d.nowMs) := by
  constructor
  · intro hall k d hd body hbody
    rw [← bundleChanges_authentic]
    intro a ha
    have hchange := deliver_keyChanges (P := P) (T := T) (s.after P T (ds.take k)) d
    rw [hbody] at hchange
    rcases hall k d hd a (hchange ▸ ha) with ⟨body', hbody', hauthentic⟩
    rw [hbody] at hbody'
    cases hbody'
    exact hauthentic
  · intro hno k d hd a ha
    rw [deliver_keyChanges] at ha
    cases hbody : (s.after P T (ds.take k)).rekeyBody P T d.frame with
    | none =>
        rw [hbody] at ha
        cases ha
    | some body =>
        rw [hbody] at ha
        exact ⟨body, rfl, (bundleChanges_authentic _ body d.nowMs).mpr (hno k d hd body hbody) a ha⟩

/-! ## A removal kept back

A pinned sender's bundle for a room of two devices leaves this one out.  The relay hands it over
two days later. -/

namespace KeptBack

/-- A signature is good when it is the one signing gives. -/
def primitives : Primitives where
  aeadEncrypt := fun _ _ message _ => some (message ++ List.replicate 16 0)
  aeadDecrypt := fun _ _ ciphertext _ => some (ciphertext.take (ciphertext.length - 16))
  sha256 := fun _ => ByteArr.fill 32 0
  hkdfExtract := fun _ _ => ByteArr.fill 32 0
  hkdfExpand := fun _ _ => ByteArr.fill 32 0
  edPublic := fun _ => ByteArr.fill 32 0
  edSign := fun _ _ => ByteArr.fill 64 0
  edValid := fun _ => true
  edVerifyStrict := fun _ _ signature => signature == ByteArr.fill 64 0
  x25519Public := fun _ => ByteArr.fill 32 0
  x25519 := fun _ _ => ByteArr.fill 32 0

def account : Identity := ⟨ByteArr.fill 32 7⟩
def keys : DeviceKeys := ⟨ByteArr.fill 32 8⟩
def senderId : DeviceId := ByteArr.fill 16 1
def thisId : DeviceId := ByteArr.fill 16 2
def sentMs : UInt64 := 0
def arrivedMs : UInt64 := 2 * 24 * 60 * 60 * 1000

def pinned : KnownDevice where
  deviceId := senderId
  signPub := keys.signPub primitives
  boxPub := keys.boxPub primitives
  connId := none
  name := ""
  os := ""
  tsMs := 0

def session : Session :=
  ((BringUp.readySession account thisId).setDeviceKeys keys).restoreKnown [pinned]

/-- What the sender signed: a bundle with no entry at all. -/
def body : Bytes :=
  Crypto.signInto primitives keys Crypto.Rekey.LABEL_REKEY (account.roomIdBytes primitives)
    ([1] ++ senderId.1 ++ be64 sentMs ++ [0])

theorem body_bundle :
    Crypto.Rekey.bundle primitives keys senderId (account.roomIdBytes primitives) sentMs []
      (ByteArr.fill 32 9) (fun _ => ⟨none, none⟩) = .ok body := rfl

def message : Message :=
  .msg {
    v := PROTOCOL_VERSION
    room := account.roomId primitives
    epoch := 0
    msgId := List.replicate 16 3
    n := List.replicate 24 4
    ct := Crypto.Msg.encodePlaintext .rekey body ++ List.replicate 16 0
    to_ := none }

def jsonText : JsonText where
  parse := fun _ => some message.toJson

def arrival : Delivery := ⟨message.toFrame, arrivedMs, BringUp.draws⟩

theorem rekeyBody_arrival : session.rekeyBody primitives jsonText arrival.frame = some body := by
  have hframe : frameOf jsonText arrival.frame = some message := frameOf_toFrame rfl rfl
  rw [rekeyBody, hframe]
  decide +kernel

theorem staleRemoval : session.StaleRemoval primitives body arrivedMs := by
  refine ⟨rfl, senderId, ⟨senderId, sentMs, []⟩, rfl, List.not_mem_nil, rfl⟩

end KeptBack

/-- A removal the relay kept back for two days still takes this device off the account. -/
theorem stale_removal_emitted :
    ¬ ∀ (P : Primitives) (T : JsonText) (s : Session) (ds : List Delivery) (k : Nat) (d : Delivery),
      ds[k]? = some d →
        ∀ a ∈ keyChanges ((s.after P T (ds.take k)).deliver P T d).2,
          ∃ body, (s.after P T (ds.take k)).rekeyBody P T d.frame = some body ∧
            (s.after P T (ds.take k)).Authentic P body d.nowMs a := by
  intro hclaim
  have hiff := (bundleChanges_authentic (P := KeptBack.primitives) KeptBack.session KeptBack.body
    KeptBack.arrivedMs).mp
  refine hiff (fun a ha => ?_) KeptBack.staleRemoval
  have hchange := deliver_keyChanges (P := KeptBack.primitives) (T := KeptBack.jsonText)
    KeptBack.session KeptBack.arrival
  rw [KeptBack.rekeyBody_arrival] at hchange
  rcases hclaim KeptBack.primitives KeptBack.jsonText KeptBack.session [KeptBack.arrival] 0
    KeptBack.arrival rfl a (hchange ▸ ha) with ⟨body, hbody, hauthentic⟩
  rw [List.take_zero] at hbody hauthentic
  have hsame := hbody.symm.trans KeptBack.rekeyBody_arrival
  cases hsame
  exact hauthentic

end Session

end Net
end Asli
