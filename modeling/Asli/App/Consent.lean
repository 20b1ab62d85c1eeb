import Asli.App.TransferStages

/-!
# Consent — file content leaves only for the device that accepted it

A piece goes to the connection a record names, and a record names one only since the answer that
accepted its offer.  The invariant over runs keeps, for each record, where in the run that was.
-/

namespace Asli
namespace App

open Logic
open Crypto (Primitives OfferId Offer Answer Chunk)
open Net (LocalEvent)
open Core (DeviceId)

/-- An event is the consent to send one file to one connection: an answer that accepts the offer of
a file under way, signed by the key pinned for the device the offer was made to. -/
def ConsentsTo (P : Primitives) (offer : Offer) (conn : String) (s : State) : Event → Prop
  | .message .fileAnswer body _ =>
      ∃ link pinned answer, s.link = some link ∧
        s.devices.pinnedAs offer.toDeviceId = some pinned ∧
        Answer.decode P body link.room pinned.signPub = .ok answer ∧
        answer.offerId = offer.offerId ∧ answer.fromDeviceId = offer.toDeviceId ∧
        answer.accepted = true ∧ answer.replyTo = conn ∧
        ∃ o, s.sending.get? offer.offerId = some o ∧ o.offer = offer
  | _ => False

/-- The consent came earlier in a run. -/
def Consented (P : Primitives) (s₀ : State) (es : List Event) (offer : Offer) (conn : String) :
    Prop :=
  Runs.Earlier (fun (s : State) e => (s.step P e).1) (ConsentsTo P offer conn) s₀ es

theorem State.readAnswer_ok {P : Primitives} {s : State} {body : Bytes} {answer : Answer}
    (h : s.readAnswer P body = some answer) :
    ∃ link pinned, s.link = some link ∧ s.devices.pinnedAs answer.fromDeviceId = some pinned ∧
      Answer.decode P body link.room pinned.signPub = .ok answer := by
  simp only [readAnswer, Option.bind_eq_bind, Option.bind_eq_some_iff] at h
  rcases h with ⟨link, hlink, from_, hfrom, pinned, hpinned, hdecode⟩
  have hok : Answer.decode P body link.room pinned.signPub = .ok answer := by
    cases hread : Answer.decode P body link.room pinned.signPub with
    | error e => rw [hread] at hdecode; cases hdecode
    | ok a => rw [hread] at hdecode; cases hdecode; rfl
  -- the key was looked up for the device the answer is from
  rw [Answer.claimedSender_of_decode P hok] at hfrom
  rw [← Option.some.inj hfrom] at hpinned
  exact ⟨link, pinned, hlink, hpinned, hok⟩

theorem AnswerTo.consents {P : Primitives} {s : State} {id : OfferId} {o : Outgoing} {body : Bytes}
    {answer : Answer} {d : MessageDraws} (h : AnswerTo P s id o body answer)
    (hget : s.sending.get? id = some o) (hkey : o.offer.offerId = id)
    (haccepted : answer.accepted = true) :
    ConsentsTo P o.offer answer.replyTo s (.message .fileAnswer body d) := by
  rcases h with ⟨hread, hid, hdevice⟩
  rcases State.readAnswer_ok hread with ⟨link, pinned, hlink, hpinned, hdecode⟩
  rw [hdevice] at hpinned
  refine ⟨link, pinned, answer, hlink, hpinned, hdecode, hid.trans hkey.symm, hdevice, haccepted,
    rfl, o, ?_, rfl⟩
  rw [hkey]
  exact hget

/-- A record that names a connection is past its offer, and does not go the direct way. -/
def Outgoing.Addressed (o : Outgoing) : Prop :=
  o.to_ ≠ none → o.stage ≠ .offered ∧ o.direct = false

theorem Outgoing.Addressed.unanswered {o : Outgoing} (h : o.Addressed) (hopen : o.answerable) :
    o.to_ = none := by
  by_contra hto
  rcases h hto with ⟨hoffered, hrelay⟩
  rcases hopen with hoffered' | ⟨hdirect, -⟩
  · exact hoffered hoffered'
  · rw [hrelay] at hdirect
    cases hdirect

theorem Outgoing.forRelay_to (o : Outgoing) : o.forRelay.to_ = o.to_ := by
  unfold Outgoing.forRelay
  split <;> rfl

theorem Outgoing.forRelay_direct {o : Outgoing} (h : o.answerable) (hrelay : o.stage = .offered →
    o.direct = false) : o.forRelay.direct = false := by
  unfold Outgoing.forRelay
  split
  · rfl
  · rename_i hsame
    rcases h with hoffered | ⟨hdirect, hlive⟩
    · exact hrelay hoffered
    · rw [hdirect, hlive] at hsame
      exact absurd rfl hsame

/-- An offer that waits has not gone any way yet. -/
def Outgoing.Waiting (o : Outgoing) : Prop :=
  o.stage = .offered → o.direct = false

theorem Stage.stopped.not_offered {stage : Stage} (h : stage.stopped) : stage ≠ .offered := by
  rcases h with rfl | rfl | ⟨why, rfl⟩
  · exact nofun
  · exact nofun
  · exact nofun

namespace Sends

variable {P : Primitives} {s : State} {e : Event} {id : OfferId}

theorem waiting {x : Option Outgoing} {o' : Outgoing} {out : List LocalEvent}
    (h : Sends P s e id x (some o') out) (hx : ∀ o, x = some o → o.Waiting) : o'.Waiting := by
  cases h with
  | offered => exact fun _ => rfl
  | kept => exact (hx _ rfl :)
  | stopped stage goneSince hstops hlive hstopped =>
      exact fun hoffered => absurd hoffered hstopped.not_offered
  | refused stage he hanswer hopen hrefused hstopped =>
      exact fun hoffered => absurd hoffered hstopped.not_offered
  | answered he hanswer hopen haccepted hlocal hpump =>
      intro hoffered
      rw [hpump.direct_eq]
      exact Outgoing.forRelay_direct hopen (hx _ rfl)
  | acked he hread hid hlive hstate hpump =>
      intro hoffered
      rcases hpump.stage with hstage | ⟨why, hstage⟩
      · rw [hoffered] at hstage
        cases hstage
      · rw [hoffered] at hstage
        cases hstage
  | pumped he hmoving hpump =>
      intro hoffered
      rcases hpump.stage with hstage | ⟨why, hstage⟩
      · rw [← hstage, hoffered] at hmoving
        cases hmoving
      · rw [hoffered] at hstage
        cases hstage
  | confirmed | damaged | begun | progressed | delivered => exact fun hoffered => nomatch hoffered

/-- A record names a connection only if it did before, or since this answer. -/
theorem addressed {x : Option Outgoing} {o' : Outgoing} {out : List LocalEvent}
    (h : Sends P s e id x (some o') out) (hget : s.sending.get? id = x)
    (hkey : ∀ o, x = some o → o.offer.offerId = id) (hx : ∀ o, x = some o → o.Waiting)
    (haddressed : ∀ o, x = some o → o.Addressed) :
    o'.Addressed ∧ ∀ conn, o'.to_ = some conn →
      (∃ o, x = some o ∧ o.to_ = some conn ∧ o.offer = o'.offer) ∨
      ConsentsTo P o'.offer conn s e := by
  cases h with
  | offered => exact ⟨fun hto => absurd rfl hto, fun conn hto => nomatch hto⟩
  | kept => exact ⟨(haddressed _ rfl :), fun conn hto => Or.inl ⟨_, rfl, hto, rfl⟩⟩
  | stopped stage goneSince hstops hlive hstopped =>
      refine ⟨fun hto => ⟨hstopped.not_offered, ?_⟩, fun conn hto => Or.inl ⟨_, rfl, hto, rfl⟩⟩
      exact (haddressed _ rfl hto).2
  | @refused o body d answer stage he hanswer hopen hrefused hstopped =>
      -- an offer that can still be answered names no connection
      have hnone : o.forRelay.to_ = none :=
        o.forRelay_to.trans ((haddressed o rfl).unanswered hopen)
      exact ⟨fun hto => absurd hnone hto, fun conn hto => nomatch hnone.symm.trans hto⟩
  | @answered o o' body d answer out he hanswer hopen haccepted hlocal hpump =>
      constructor
      · intro hto
        have hstage : o'.stage ≠ .offered := by
          rcases hpump.stage with hstage | ⟨why, hstage⟩
          · rw [hstage]
            exact nofun
          · rw [hstage]
            exact nofun
        refine ⟨hstage, ?_⟩
        rw [hpump.direct_eq]
        exact Outgoing.forRelay_direct hopen (hx _ rfl)
      · intro conn hto
        rw [hpump.to_eq] at hto
        cases hto
        have hoffer : o'.offer = o.offer := hpump.offer_eq.trans (Outgoing.forRelay_offer _)
        rw [he, hoffer]
        exact Or.inr (hanswer.consents hget (hkey o rfl) haccepted)
  | @acked o o' body d ack out he hread hid hlive hstate hpump =>
      constructor
      · intro hto
        rw [hpump.to_eq] at hto
        refine ⟨?_, hpump.direct_eq.trans (haddressed o rfl hto).2⟩
        rcases hpump.stage with hstage | ⟨why, hstage⟩
        · rw [hstage]
          exact nofun
        · rw [hstage]
          exact nofun
      · intro conn hto
        rw [hpump.to_eq] at hto
        exact Or.inl ⟨o, rfl, hto, hpump.offer_eq.symm⟩
  | @pumped o o' d out he hmoving hpump =>
      constructor
      · intro hto
        rw [hpump.to_eq] at hto
        refine ⟨?_, hpump.direct_eq.trans (haddressed o rfl hto).2⟩
        rcases hpump.stage with hstage | ⟨why, hstage⟩
        · rw [hstage]
          exact (haddressed o rfl hto).1
        · rw [hstage]
          exact nofun
      · intro conn hto
        rw [hpump.to_eq] at hto
        exact Or.inl ⟨o, rfl, hto, hpump.offer_eq.symm⟩
  | confirmed he hread hid hlive hstate =>
      refine ⟨fun hto => ⟨nofun, ?_⟩, fun conn hto => Or.inl ⟨_, rfl, hto, rfl⟩⟩
      exact (haddressed _ rfl hto).2
  | damaged why he hread hid hlive hstate =>
      refine ⟨fun hto => ⟨nofun, ?_⟩, fun conn hto => Or.inl ⟨_, rfl, hto, rfl⟩⟩
      exact (haddressed _ rfl hto).2
  | @begun o now he hoffered =>
      have hnone : o.to_ = none := (haddressed o rfl).unanswered (Or.inl hoffered)
      exact ⟨fun hto => absurd hnone hto, fun conn hto => nomatch hnone.symm.trans hto⟩
  | @progressed o sent now he hlive hdirect =>
      have hnone : o.to_ = none := (haddressed o rfl).unanswered (Or.inr ⟨hdirect, hlive⟩)
      exact ⟨fun hto => absurd hnone hto, fun conn hto => nomatch hnone.symm.trans hto⟩
  | @delivered o he hlive hdirect =>
      have hnone : o.to_ = none := (haddressed o rfl).unanswered (Or.inr ⟨hdirect, hlive⟩)
      exact ⟨fun hto => absurd hnone hto, fun conn hto => nomatch hnone.symm.trans hto⟩

/-- A piece that goes out is one of a record under way, to the connection the record names. -/
theorem sent {x y : Option Outgoing} {out : List LocalEvent} (h : Sends P s e id x y out)
    {m : LocalEvent} (hm : m ∈ out) :
    ∃ o o' draws i, x = some o ∧ y = some o' ∧ o.stage.finished = false ∧ o'.offer = o.offer ∧
      ((∃ n, o'.stage = .moving n) ∨ ∃ why, o'.stage = .failed why) ∧ Piece o' draws i m := by
  -- a pump keeps the offer and the connection, so its pieces are the record's afterwards too
  have hpumped : ∀ {draws : Nat → PieceDraw} {o₁ o' : Outgoing} {out : List LocalEvent},
      Pumped draws o₁ o' out → m ∈ out → ∃ i, Piece o' draws i m := by
    intro draws o₁ o' out hpump hm
    rcases hpump.mem hm with ⟨i, -, -, to_, data, body, hto, hdata, hbody, heq⟩
    refine ⟨i, to_, data, body, hpump.to_eq.trans hto, hdata, ?_, heq⟩
    rw [hpump.offer_eq]
    exact hbody
  have hmoving : ∀ {draws : Nat → PieceDraw} {o₁ o' : Outgoing} {out : List LocalEvent},
      Pumped draws o₁ o' out → (∃ n, o₁.stage = .moving n) →
      (∃ n, o'.stage = .moving n) ∨ ∃ why, o'.stage = .failed why := by
    intro draws o₁ o' out hpump ⟨n, hn⟩
    rcases hpump.stage with hstage | hfailed
    · exact Or.inl ⟨n, hstage.trans hn⟩
    · exact Or.inr hfailed
  cases h with
  | absent | offered | cleared | kept | stopped | refused | confirmed | damaged | begun
  | progressed | delivered => cases hm
  | @answered o o' body d answer out he hanswer hopen haccepted hlocal hpump =>
      rcases hpumped hpump hm with ⟨i, hpiece⟩
      refine ⟨o, o', d.pieces, i, rfl, rfl, ?_, ?_, hmoving hpump ⟨0, rfl⟩, hpiece⟩
      · rcases hopen with hoffered | ⟨-, hlive⟩
        · rw [hoffered]
          rfl
        · exact hlive
      · exact hpump.offer_eq.trans (Outgoing.forRelay_offer o)
  | @acked o o' body d ack out he hread hid hlive hstate hpump =>
      rcases hpumped hpump hm with ⟨i, hpiece⟩
      exact ⟨o, o', d.pieces, i, rfl, rfl, hlive, hpump.offer_eq, hmoving hpump ⟨_, rfl⟩, hpiece⟩
  | @pumped o o' d out he hmove hpump =>
      rcases hpumped hpump hm with ⟨i, hpiece⟩
      refine ⟨o, o', d.pieces id, i, rfl, rfl, Stage.unfinished_of_moving hmove, hpump.offer_eq,
        hmoving hpump ?_, hpiece⟩
      cases hstage : o.stage with
      | moving n => exact ⟨n, rfl⟩
      | offered | done _ | declined | cancelled | failed _ => rw [hstage] at hmove; cases hmove

end Sends

/-! ## Runs -/

/-- What a run so far says of the records it left: each is kept under its own id, and each that
names a connection does so since its receiver's consent. -/
structure ConsentsKept (P : Primitives) (s₀ : State) (es : List Event) (s : State) : Prop where
  keyed : s.WellKeyed
  waiting : ∀ id o, s.sending.get? id = some o → o.Waiting
  addressed : ∀ id o, s.sending.get? id = some o → o.Addressed
  consented : ∀ id o conn, s.sending.get? id = some o → o.to_ = some conn →
    Consented P s₀ es o.offer conn

namespace State

variable {P : Primitives}

theorem default_consentsKept (devices : Registry) (disk : Disk) :
    ConsentsKept P (.default devices disk) [] (.default devices disk) where
  keyed := default_wellKeyed devices disk
  waiting := fun _ _ hget => nomatch hget
  addressed := fun _ _ hget => nomatch hget
  consented := fun _ _ _ hget => nomatch hget

theorem run_snoc (s : State) (es : List Event) (e : Event) :
    s.run P (es ++ [e]) = ((s.run P es).step P e).1 := by
  unfold run
  rw [List.foldl_append]
  rfl

theorem step_consentsKept {s₀ : State} {es : List Event} (e : Event)
    (h : ConsentsKept P s₀ es (s₀.run P es)) :
    ConsentsKept P s₀ (es ++ [e]) ((s₀.run P es).step P e).1 := by
  have hsends : ∀ id o', ((s₀.run P es).step P e).1.sending.get? id = some o' →
      ∃ out, Sends P (s₀.run P es) e id ((s₀.run P es).sending.get? id) (some o') out := by
    intro id o' hget'
    have hsends := step_sends (P := P) h.keyed e id
    rw [hget'] at hsends
    exact ⟨_, hsends⟩
  refine ⟨step_wellKeyed h.keyed e, ?_, ?_, ?_⟩
  · intro id o' hget'
    rcases hsends id o' hget' with ⟨out, hsend⟩
    exact hsend.waiting (h.waiting id)
  · intro id o' hget'
    rcases hsends id o' hget' with ⟨out, hsend⟩
    exact (hsend.addressed rfl (h.keyed.1 id) (h.waiting id) (h.addressed id)).1
  · intro id o' conn hget' hto
    rcases hsends id o' hget' with ⟨out, hsend⟩
    rcases (hsend.addressed rfl (h.keyed.1 id) (h.waiting id) (h.addressed id)).2 conn hto
      with ⟨o, hget, hto', hoffer⟩ | hconsents
    · rw [← hoffer]
      exact (h.consented id o conn hget hto').append [e]
    · exact Runs.Earlier.last hconsents

theorem run_consentsKept (devices : Registry) (disk : Disk) (es : List Event) :
    ConsentsKept P (.default devices disk) es ((State.default devices disk).run P es) := by
  refine Runs.history (fun (s : State) e => (s.step P e).1)
    (ConsentsKept P (.default devices disk)) ?_ (default_consentsKept devices disk) es
  intro past e h
  exact step_consentsKept e h

/-- Every piece of a file that any run puts into the queue belongs to a transfer under way, and goes
to the connection an acceptance of its offer named, signed by the key pinned for the device it was
offered to: the transfer was already moving to that connection, or this very event is the
acceptance. -/
theorem pieces_follow_consent (P : Primitives) (devices : Registry) (disk : Disk)
    (es : List Event) (e : Event) (m : LocalEvent) :
    let s₀ := State.default devices disk
    let s := s₀.run P es
    m ∈ (s.step P e).2 → isChunk m = true →
    ∃ c conn body o o', m = .message .fileChunk body (some conn) none ∧
      Chunk.decode body = .ok c ∧ s.sending.get? c.offerId = some o ∧
      (s.step P e).1.sending.get? c.offerId = some o' ∧ o'.offer = o.offer ∧
      o.offer.offerId = c.offerId ∧ o.stage.finished = false ∧
      ((∃ n, o'.stage = .moving n) ∨ ∃ why, o'.stage = .failed why) ∧
      Consented P s₀ (es ++ [e]) o.offer conn ∧
      ((∃ n, o.stage = .moving n) ∧ o.to_ = some conn ∨ ConsentsTo P o.offer conn s e) := by
  intro s₀ s hm hchunk
  have hkept : ConsentsKept P s₀ es s := run_consentsKept devices disk es
  rcases mem_piecesOf hm hchunk with ⟨id, hmem⟩
  have hsends := step_sends (P := P) hkept.keyed e id
  rcases hsends.sent hmem with ⟨o, o', draws, i, hget, hget', hlive, hoffer, hstage, hpiece⟩
  rcases hpiece with ⟨conn, data, body, hto, -, hbody, rfl⟩
  have hid : o.offer.offerId = id := hkept.keyed.1 id o hget
  have hid' : o'.offer.offerId = id := by rw [hoffer]; exact hid
  rw [hid'] at hbody
  refine ⟨⟨id, UInt32.ofNat i, data⟩, conn, body, o, o', rfl, Chunk.decode_encode hbody,
      hget, hget',
    hoffer, hid, hlive, hstage, ?_, ?_⟩
  · have hafter := (step_consentsKept e hkept).consented id o' conn hget' hto
    rw [hoffer] at hafter
    exact hafter
  · rw [hget', hget] at hsends
    have hsame : ∀ o₁, some o = some o₁ → s.sending.get? id = some o₁ := fun o₁ h => hget.trans h
    rcases (hsends.addressed hget (fun o₁ h => hkept.keyed.1 id o₁ (hsame o₁ h))
      (fun o₁ h => hkept.waiting id o₁ (hsame o₁ h))
      (fun o₁ h => hkept.addressed id o₁ (hsame o₁ h))).2 conn hto
      with ⟨o₁, heq, hto₁, -⟩ | hconsents
    · cases heq
      refine Or.inl ⟨?_, hto₁⟩
      have hpast : o.stage ≠ .offered := by
        refine (hkept.addressed id o hget ?_).1
        rw [hto₁]
        exact nofun
      cases hold : o.stage with
      | moving n => exact ⟨n, rfl⟩
      | offered => exact absurd hold hpast
      | done _ | declined | cancelled | failed _ => rw [hold] at hlive; cases hlive
    · rw [hoffer] at hconsents
      exact Or.inr hconsents

end State

/-! ## One file

A device offers a file of three bytes to a laptop, which accepts it. -/

namespace OneFile

/-- Every good signature is the same. -/
def primitives : Primitives where
  aeadEncrypt := fun _ _ _ _ => none
  aeadDecrypt := fun _ _ _ _ => none
  sha256 := fun _ => ByteArr.fill 32 0
  hkdfExtract := fun _ _ => ByteArr.fill 32 0
  hkdfExpand := fun _ _ => ByteArr.fill 32 0
  edPublic := fun key => key
  edSign := fun _ _ => ByteArr.fill 64 0
  edValid := fun _ => true
  edVerifyStrict := fun _ _ signature => signature == ByteArr.fill 64 0
  x25519Public := fun key => key
  x25519 := fun _ _ => ByteArr.fill 32 0

def room : Crypto.RoomId := ByteArr.fill 16 9
def laptop : DeviceId := ByteArr.fill 16 2
def laptopKeys : Crypto.DeviceKeys := ⟨ByteArr.fill 32 6⟩
def file : OfferId := ByteArr.fill 16 3
def content : Bytes := [1, 2, 3]

/-- The laptop, pinned and connected. -/
def devices : Registry where
  conns := Table.empty.insert laptop "b"
  paths := false
  stored := ⟨"", Table.empty.insert laptop {
    signPub := some (laptopKeys.signPub primitives)
    boxPub := some (laptopKeys.boxPub primitives)
    name := "laptop"
    os := ""
    lastSeenMs := 0
    version := ""
    build := 0 }⟩
  connected := true
  peers := 1
  lastDepartureMs := 0
  file := none

def start : State :=
  State.default devices Table.empty

def offered : List Event :=
  [.attach (ByteArr.fill 32 5) (ByteArr.fill 16 1) room devices, .connected "a" true,
    .offer ⟨"", "notes"⟩ laptop "b" "laptop" (.ok content)
      ⟨some file, none, [], ⟨none, none⟩, 0, 0, true⟩]

/-- What a message finds, when the queue takes its pieces or not. -/
def draws (room : Bool) : MessageDraws :=
  ⟨0, 0, fun _ => ⟨0, .ok content, room⟩, ⟨.ok (), .ok (), .ok ()⟩, true, true⟩

def acceptance : Bytes :=
  Crypto.signInto primitives laptopKeys Crypto.LABEL_ANSWER room
    (1 :: (file.1 ++ (laptop.1 ++ [1, 1, 98])))

def accepted (room : Bool) : Event :=
  .message .fileAnswer acceptance (draws room)

def piece : LocalEvent :=
  .message .fileChunk (1 :: (file.1 ++ (be32 0 ++ (be32 3 ++ content)))) (some "b") none

theorem accepted_sends :
    ((start.run primitives offered).step primitives (accepted true)).2 = [piece] := by
  decide +kernel

end OneFile

open OneFile in
/-- The piece of that file went out on the acceptance itself. -/
theorem State.one_piece_follows_consent :
    ∃ c conn body o o', piece = .message .fileChunk body (some conn) none ∧
      Chunk.decode body = .ok c ∧
      (start.run primitives offered).sending.get? c.offerId = some o ∧
      ((start.run primitives offered).step primitives (accepted true)).1.sending.get? c.offerId =
        some o' ∧
      o'.offer = o.offer ∧ o.offer.offerId = c.offerId ∧ o.stage.finished = false ∧
      ((∃ n, o'.stage = .moving n) ∨ ∃ why, o'.stage = .failed why) ∧
      Consented primitives start (offered ++ [accepted true]) o.offer conn ∧
      ((∃ n, o.stage = .moving n) ∧ o.to_ = some conn ∨
        ConsentsTo primitives o.offer conn (start.run primitives offered) (accepted true)) := by
  have hsent : piece ∈ ((start.run primitives offered).step primitives (accepted true)).2 := by
    rw [accepted_sends]
    exact List.mem_singleton.mpr rfl
  exact State.pieces_follow_consent primitives OneFile.devices Table.empty offered
      (accepted true) piece
    hsent rfl

end App
end Asli
