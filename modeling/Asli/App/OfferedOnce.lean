import Asli.App.ReceiveSteps
import Asli.Logic.Window
import Asli.Net.Frames
import Asli.Net.MessageWindow

/-!
# OfferedOnce — when a file offer is asked about again

Three memories keep a repeated offer from the person: the session's window of message ids, the map
of received offers, and the checks on an offer's age and connection.  Clearing the finished
transfers empties the second.

* `Receiver.asked_again` — between two times an offer is asked about it was over and cleared; if
  both came in one and the same message, the window has moved past it meanwhile.
-/

namespace Asli
namespace App

open Logic
open Core (MsgId DeviceId)
open Crypto (Primitives OfferId Offer Kind Identity)
open Net (Connection)

/-! ## The receiving daemon -/

/-- The receiving daemon: its connection, the messages on their way to the transfers, each with the
place of its id among those taken, the transfers, and the ids of all device messages taken. -/
structure Receiver where
  connection : Connection
  inbox : List (Nat × Kind × Bytes)
  transfers : State
  taken : List MsgId

/-- A new connection, a call of the session, the oldest message reaches the transfers, or anything
else happens to them. -/
inductive Occurrence where
  | hello (clientId : String)
  | call (c : Net.Call)
  | deliver (d : MessageDraws)
  | transfers (e : Event)

/-- The event is a device message, which only a connection brings. -/
def Event.isMessage : Event → Bool
  | .message _ _ _ => true
  | _ => false

namespace Receiver

variable (P : Primitives) (T : JsonText)

def start (account : Identity) (device : DeviceId) (seq : UInt64) (devices : Registry)
    (disk : Disk) : Receiver where
  connection := ⟨Net.Session.new account device seq, false⟩
  inbox := []
  transfers := State.default devices disk
  taken := []

/-- A session that takes a device message remembers its id, which it did not before. -/
def newlySeen (s t : Net.Session) : List MsgId :=
  t.msgSeen.filter fun id => decide (id ∉ s.msgSeen)

def step (r : Receiver) : Occurrence → Receiver
  | .hello clientId => { r with connection := Connection.start r.connection.session clientId }
  | .call c =>
      let called := r.connection.step P T c
      { r with
        connection := called.1
        inbox := r.inbox ++
          (called.2.filterMap Net.Action.handed?).map fun x => (r.taken.length, x.1, x.2)
        taken := r.taken ++ newlySeen r.connection.session called.1.session }
  | .deliver d =>
      match r.inbox with
      | [] => r
      | (_, kind, body) :: rest =>
          { r with
            inbox := rest
            transfers := (r.transfers.step P (.message kind body d)).1 }
  | .transfers e =>
      if e.isMessage then r else { r with transfers := (r.transfers.step P e).1 }

def run (r : Receiver) (es : List Occurrence) : Receiver :=
  es.foldl (step P T) r

/-- A step asks the person about the offer under an id, which came in the message taken at a
place. -/
def Reports (r : Receiver) (e : Occurrence) (id : OfferId) (n : Nat) : Prop :=
  ∃ d body rest offer asked, e = .deliver d ∧ r.inbox = (n, .fileOffer, body) :: rest ∧
    SignedOffer P r.transfers body offer ∧ offer.offerId = id ∧
    (r.transfers.onMessage P .fileOffer body d).2.2 = some asked

/-- The finished transfers are cleared while the one under an id is over. -/
def Clears (id : OfferId) (r : Receiver) (e : Occurrence) : Prop :=
  e = .transfers .clearFinished ∧
    ∃ i, r.transfers.receiving.get? id = some i ∧ i.stage.finished = true

/-- The offer that arrives is recent, and its sender is not known to have left the connection it was
made on. -/
def Timely (r : Receiver) (e : Occurrence) (id : OfferId) : Prop :=
  ∃ d n body rest offer, e = .deliver d ∧ r.inbox = (n, .fileOffer, body) :: rest ∧
    SignedOffer P r.transfers body offer ∧ offer.offerId = id ∧
    Net.Session.fresh d.nowMs offer.tsMs = true ∧
    ∀ conn, r.transfers.devices.connOf offer.fromDeviceId = some conn → conn = offer.replyTo

end Receiver

/-! ## One report -/

section Report

variable {P : Primitives} {s : State} {body : Bytes} {d : MessageDraws}

theorem SignedOffer.unique {a b : Offer} (ha : SignedOffer P s body a)
    (hb : SignedOffer P s body b) : a = b := by
  rcases ha with ⟨link, from_, pinned, hlink, hfrom, hpinned, hdecode⟩
  rcases hb with ⟨link', from', pinned', hlink', hfrom', hpinned', hdecode'⟩
  cases hlink.symm.trans hlink'
  cases hfrom.symm.trans hfrom'
  cases hpinned.symm.trans hpinned'
  exact Except.ok.inj (hdecode.symm.trans hdecode')

/-- An offer that is reported is recent, from a device not known to be on another connection, and
not in the list, which it then joins. -/
theorem onOffer_reports {offer : Offer} {asked : DeviceId × String × String × UInt64}
    (hsigned : SignedOffer P s body offer) (h : (s.onOffer P body d).2 = some asked) :
    Net.Session.fresh d.nowMs offer.tsMs = true ∧
      (∀ conn, s.devices.connOf offer.fromDeviceId = some conn → conn = offer.replyTo) ∧
      s.receiving.get? offer.offerId = none ∧
      ((s.onOffer P body d).1.receiving.get? offer.offerId).isSome = true := by
  rcases hsigned with ⟨link, from_, pinned, hlink, hfrom, hpinned, hdecode⟩
  have hsender : offer.fromDeviceId = from_ :=
    Except.ok.inj ((Offer.claimedSender_of_decode P hdecode).symm.trans hfrom)
  simp only [State.onOffer, hlink, hfrom, hpinned, hdecode, Option.bind_eq_bind, Option.bind_some,
    Except.toOption, Option.pure_def] at h ⊢
  split at h
  · cases h
  rename_i hstale
  split at h
  · cases h
  rename_i hrefused
  rw [if_neg hstale, if_neg hrefused]
  rw [Bool.or_eq_true, not_or, Bool.not_eq_true', Bool.not_eq_false] at hstale
  rcases hstale with ⟨hfresh, hhere⟩
  push Not at hrefused
  refine ⟨hfresh, ?_, Option.isNone_iff_eq_none.mp ?_, ?_⟩
  · intro conn hconn
    rw [hsender] at hconn
    rw [hconn] at hhere
    simpa using hhere
  · simpa using hrefused.2.2
  · rw [Table.get?_insert, if_pos rfl]
    rfl

end Report

namespace Receiver

variable {P : Primitives} {T : JsonText}

theorem Reports.timely {r : Receiver} {e : Occurrence} {id : OfferId} {n : Nat}
    (h : r.Reports P e id n) : r.Timely P e id := by
  rcases h with ⟨d, body, rest, offer, asked, he, hinbox, hsigned, hid, hasked⟩
  rcases onOffer_reports hsigned hasked with ⟨hfresh, hhere, -, -⟩
  exact ⟨d, n, body, rest, offer, he, hinbox, hsigned, hid, hfresh, hhere⟩

theorem Reports.absent {r : Receiver} {e : Occurrence} {id : OfferId} {n : Nat}
    (h : r.Reports P e id n) : r.transfers.receiving.get? id = none := by
  rcases h with ⟨d, body, rest, offer, asked, he, hinbox, hsigned, rfl, hasked⟩
  exact (onOffer_reports hsigned hasked).2.2.1

theorem Reports.listed {r : Receiver} {e : Occurrence} {id : OfferId} {n : Nat}
    (h : r.Reports P e id n) :
    ((r.step P T e).transfers.receiving.get? id).isSome = true := by
  rcases h with ⟨d, body, rest, offer, asked, rfl, hinbox, hsigned, rfl, hasked⟩
  have hlisted := (onOffer_reports hsigned hasked).2.2.2
  simp only [step, hinbox]
  exact hlisted

theorem Reports.place {r : Receiver} {e : Occurrence} {id : OfferId} {n : Nat}
    (h : r.Reports P e id n) :
    ∃ kind body rest, r.inbox = (n, kind, body) :: rest ∧ (r.step P T e).inbox = rest ∧
      (r.step P T e).taken = r.taken := by
  rcases h with ⟨d, body, rest, offer, asked, rfl, hinbox, -, -, -⟩
  refine ⟨_, body, rest, hinbox, ?_, ?_⟩
  · simp only [step, hinbox]
  · simp only [step, hinbox]

/-! ## The transfers -/

/-- A step leaves the transfers alone, or is one event of theirs. -/
theorem step_transfers (r : Receiver) (e : Occurrence) :
    (r.step P T e).transfers = r.transfers ∨
      ∃ event, (r.step P T e).transfers = (r.transfers.step P event).1 ∧
        (event = .clearFinished → e = .transfers .clearFinished) := by
  cases e with
  | hello clientId => exact Or.inl rfl
  | call c => exact Or.inl rfl
  | deliver d =>
      simp only [step]
      split
      · exact Or.inl rfl
      · exact Or.inr ⟨_, rfl, fun heq => nomatch heq⟩
  | transfers event =>
      simp only [step]
      split
      · exact Or.inl rfl
      · exact Or.inr ⟨event, rfl, fun heq => congrArg Occurrence.transfers heq⟩

theorem step_keyed {r : Receiver} (h : r.transfers.WellKeyed) (e : Occurrence) :
    (r.step P T e).transfers.WellKeyed := by
  rcases step_transfers (P := P) (T := T) r e with hsame | ⟨event, hevent, -⟩
  · rw [hsame]
    exact h
  · rw [hevent]
    exact State.step_wellKeyed h event

/-- An offer leaves the list only when it is over and the finished transfers are cleared. -/
theorem step_clears {r : Receiver} (h : r.transfers.WellKeyed) {e : Occurrence} {id : OfferId}
    (hlisted : (r.transfers.receiving.get? id).isSome = true)
    (hgone : ((r.step P T e).transfers.receiving.get? id).isSome ≠ true) : r.Clears id e := by
  rcases step_transfers (P := P) (T := T) r e with hsame | ⟨event, hevent, honly⟩
  · rw [hsame] at hgone
    exact absurd hlisted hgone
  · rw [hevent] at hgone
    have hreceives := State.step_receives (P := P) h event id
    rcases Option.isSome_iff_exists.mp hlisted with ⟨i, hi⟩
    rw [Option.not_isSome_iff_eq_none.mp hgone, hi] at hreceives
    generalize repliesOf id (r.transfers.step P event).2 = replies at hreceives
    cases hreceives with
    | cleared he hfinished => exact ⟨honly he, i, hi, hfinished⟩

/-! ## The messages -/

/-- What a step does with the ids taken and the messages handed on: nothing but delivering some, or
a session takes a message whose id it does not remember, and hands it on. -/
inductive Takes (r t : Receiver) : Prop where
  | none : t.connection.session.msgSeen = r.connection.session.msgSeen → t.taken = r.taken →
      t.inbox <:+ r.inbox → Takes r t
  | one (id : MsgId) (handed : List (Nat × Kind × Bytes)) :
      id ∉ r.connection.session.msgSeen →
      t.connection.session.msgSeen =
        Net.Session.remember Net.MSG_SEEN_CAPACITY r.connection.session.msgSeen id →
      t.taken = r.taken ++ [id] → t.inbox = r.inbox ++ handed → handed.length ≤ 1 →
      (∀ x ∈ handed, x.1 = r.taken.length) → Takes r t

theorem newlySeen_same {s t : Net.Session} (h : t.msgSeen = s.msgSeen) : newlySeen s t = [] := by
  rw [newlySeen, h, List.filter_eq_nil_iff]
  intro id hmem
  simp [hmem]

theorem newlySeen_remember {s t : Net.Session} {cap : Nat} {id : MsgId} (hnew : id ∉ s.msgSeen)
    (h : t.msgSeen = Net.Session.remember cap s.msgSeen id) : newlySeen s t = [id] := by
  have hold : ∀ w : List MsgId, w ⊆ s.msgSeen →
      w.filter (fun id => decide (id ∉ s.msgSeen)) = [] := by
    intro w hw
    apply List.filter_eq_nil_iff.mpr
    intro x hx
    simp [hw hx]
  rw [newlySeen, h, Net.Session.remember, List.filter_append]
  split
  · rw [hold _ (List.tail_subset _)]
    simp [hnew]
  · rw [hold _ (List.Subset.refl _)]
    simp [hnew]

theorem step_takes (r : Receiver) (e : Occurrence) : Takes r (r.step P T e) := by
  cases e with
  | hello clientId => exact .none rfl rfl (List.suffix_refl _)
  | transfers event =>
      simp only [step]
      split
      · exact .none rfl rfl (List.suffix_refl _)
      · exact .none rfl rfl (List.suffix_refl _)
  | deliver d =>
      simp only [step]
      split
      · exact .none rfl rfl (List.suffix_refl _)
      · rename_i hinbox
        refine .none rfl rfl ?_
        rw [hinbox]
        exact List.suffix_cons _ _
  | call c =>
      rcases Connection.step_hears (P := P) (T := T) r.connection c
          with hdeaf | ⟨id, hnew, hseen, hone⟩
      · refine .none hdeaf.msgSeen ?_ ?_
        · simp only [step]
          rw [newlySeen_same hdeaf.msgSeen, List.append_nil]
        · simp only [step]
          rw [hdeaf.handed, List.map_nil, List.append_nil]
      · refine .one id _ hnew hseen ?_ rfl ?_ ?_
        · simp only [step]
          rw [newlySeen_remember hnew hseen]
        · rw [List.length_map]
          exact hone
        · intro x hx
          rcases List.mem_map.mp hx with ⟨y, -, rfl⟩
          rfl

/-- What a run keeps: the session remembers the last ids taken, an id is taken twice only when it
was forgotten in between, and the messages handed on stand in the order they were taken. -/
structure Ordered (r : Receiver) : Prop where
  window : r.connection.session.msgSeen = r.taken.rtake Net.MSG_SEEN_CAPACITY
  apart : ∀ i j id, i < j → r.taken[i]? = some id → r.taken[j]? = some id →
    i + Net.MSG_SEEN_CAPACITY < j
  inbox : (r.inbox.map Prod.fst).Pairwise (· < ·)
  taken : ∀ x ∈ r.inbox, x.1 < r.taken.length
  keyed : r.transfers.WellKeyed

theorem start_ordered (account : Identity) (device : DeviceId) (seq : UInt64) (devices : Registry)
    (disk : Disk) : Ordered (start account device seq devices disk) where
  window := (List.rtake_nil _).symm
  apart := by
    intro i j id hij hi
    simp only [start, List.getElem?_nil, reduceCtorEq] at hi
  inbox := List.Pairwise.nil
  taken := fun _ h => absurd h List.not_mem_nil
  keyed := State.default_wellKeyed devices disk

theorem remember_window (taken : List MsgId) (id : MsgId) :
    Net.Session.remember Net.MSG_SEEN_CAPACITY (taken.rtake Net.MSG_SEEN_CAPACITY) id =
      (taken ++ [id]).rtake Net.MSG_SEEN_CAPACITY := by
  have hlen := Window.length_rtake_le Net.MSG_SEEN_CAPACITY taken
  have hfull : (taken.rtake Net.MSG_SEEN_CAPACITY).length ≥ Net.MSG_SEEN_CAPACITY ↔
      (taken.rtake Net.MSG_SEEN_CAPACITY).length = Net.MSG_SEEN_CAPACITY :=
    ⟨fun hge => Nat.le_antisymm hlen hge, fun heq => Nat.le_of_eq heq.symm⟩
  rw [← Window.push_rtake (by decide), Window.push, Net.Session.remember]
  simp only [hfull]

theorem step_ordered {r : Receiver} (h : Ordered r) (e : Occurrence) :
    Ordered (r.step P T e) := by
  have hkeyed := step_keyed (P := P) (T := T) h.keyed e
  have htakes := step_takes (P := P) (T := T) r e
  generalize r.step P T e = t at hkeyed htakes
  cases htakes with
  | none hseen htaken hinbox =>
      refine ⟨?_, ?_, ?_, ?_, hkeyed⟩
      · rw [hseen, htaken]
        exact h.window
      · rw [htaken]
        exact h.apart
      · exact h.inbox.sublist (hinbox.sublist.map _)
      · rw [htaken]
        exact fun x hx => h.taken x (hinbox.subset hx)
  | one id handed hnew hseen htaken hinbox hone hplaces =>
      refine ⟨?_, ?_, ?_, ?_, hkeyed⟩
      · rw [hseen, htaken, h.window]
        exact remember_window _ _
      · -- only the id just taken can repeat one, and the window did not hold it
        intro i j x hij hi hj
        rw [htaken] at hi hj
        rcases Nat.lt_trichotomy j r.taken.length with hlt | rfl | hgt
        · rw [List.getElem?_append_left hlt] at hj
          rw [List.getElem?_append_left (hij.trans hlt)] at hi
          exact h.apart i j x hij hi hj
        · rw [List.getElem?_concat_length] at hj
          rw [List.getElem?_append_left hij] at hi
          cases hj
          by_contra hrecent
          apply hnew
          rw [h.window]
          exact Window.mem_rtake_of_recent hi (Nat.not_lt.mp hrecent)
        · rw [List.getElem?_eq_none (by simp; omega)] at hj
          cases hj
      · rw [hinbox, List.map_append, List.pairwise_append]
        refine ⟨h.inbox, ?_, ?_⟩
        · rcases handed with _ | ⟨x, _ | ⟨y, more⟩⟩
          · exact List.Pairwise.nil
          · exact List.pairwise_singleton _ _
          · exact absurd hone (by simp)
        · intro m hm n hn
          rcases List.mem_map.mp hm with ⟨x, hx, rfl⟩
          rcases List.mem_map.mp hn with ⟨y, hy, rfl⟩
          rw [hplaces y hy]
          exact h.taken x hx
      · intro x hx
        rw [htaken, List.length_append, List.length_singleton]
        rw [hinbox] at hx
        rcases List.mem_append.mp hx with hold | hhanded
        · exact Nat.lt_succ_of_lt (h.taken x hold)
        · rw [hplaces x hhanded]
          exact Nat.lt_succ_self _

theorem run_ordered {r : Receiver} (h : Ordered r) (es : List Occurrence) :
    Ordered (r.run P T es) :=
  Runs.invariant (step P T) Ordered (c := fun _ _ => True) (fun _ e h _ => step_ordered h e) es h
    Runs.along_true

/-- What is still to be delivered was taken after the message at a place. -/
structure Past (n : Nat) (r : Receiver) : Prop where
  taken : n < r.taken.length
  inbox : ∀ x ∈ r.inbox, n < x.1

theorem step_past {r : Receiver} {n : Nat} (h : Past n r) (e : Occurrence) :
    Past n (r.step P T e) := by
  have htakes := step_takes (P := P) (T := T) r e
  generalize r.step P T e = t at htakes
  cases htakes with
  | none hseen htaken hinbox =>
      refine ⟨?_, fun x hx => h.inbox x (hinbox.subset hx)⟩
      rw [htaken]
      exact h.taken
  | one id handed hnew hseen htaken hinbox hone hplaces =>
      constructor
      · rw [htaken, List.length_append]
        exact Nat.lt_add_right _ h.taken
      · intro x hx
        rw [hinbox] at hx
        rcases List.mem_append.mp hx with hold | hhanded
        · exact h.inbox x hold
        · rw [hplaces x hhanded]
          exact h.taken

theorem Reports.past {r : Receiver} {e : Occurrence} {id : OfferId} {n : Nat} (hordered : Ordered r)
    (h : r.Reports P e id n) : Past n (r.step P T e) := by
  rcases h.place (T := T) with ⟨kind, body, rest, hinbox, hrest, htaken⟩
  have hsorted := hordered.inbox
  rw [hinbox, List.map_cons, List.pairwise_cons] at hsorted
  constructor
  · rw [htaken]
    exact hordered.taken (n, kind, body) (by rw [hinbox]; exact List.mem_cons_self)
  · intro x hx
    rw [hrest] at hx
    exact hsorted.1 x.1 (List.mem_map_of_mem hx)

/-! ## An offer declined, cleared and repeated

A laptop is offered a file.  The person declines and clears the list, 256 other messages of the
account arrive, and the relay repeats the first. -/

end Receiver

namespace RepeatedOffer

open Receiver

abbrev primitives : Primitives := Net.Session.KeptBack.primitives

def account : Identity := ⟨ByteArr.fill 32 7⟩
def phoneKeys : Crypto.DeviceKeys := ⟨ByteArr.fill 32 8⟩
def phone : DeviceId := ByteArr.fill 16 1
def laptop : DeviceId := ByteArr.fill 16 2
def file : OfferId := ByteArr.fill 16 3
def other : OfferId := ByteArr.fill 16 4

/-- The phone, pinned and connected. -/
def devices : Registry where
  conns := Table.empty.insert phone "b"
  paths := false
  stored := ⟨"", Table.empty.insert phone {
    signPub := some (phoneKeys.signPub primitives)
    boxPub := some (phoneKeys.boxPub primitives)
    name := "phone"
    os := ""
    lastSeenMs := 0
    version := ""
    build := 0 }⟩
  connected := true
  peers := 1
  lastDepartureMs := 0
  file := none

/-- What the phone signed. -/
def offer : Bytes :=
  Crypto.signInto primitives phoneKeys Crypto.LABEL_OFFER (account.roomIdBytes primitives)
    (1 :: (file.1 ++ (phone.1 ++ (laptop.1 ++ (be64 3 ++ ((ByteArr.fill 32 0).1 ++ (be32 3 ++
      (be64 0 ++ ([1, 98] ++ ([0, 1, 110] ++ [0]))))))))))

def cancel : Bytes :=
  Crypto.Cancel.encode ⟨other⟩

def message (id : MsgId) (kind : Kind) (body : Bytes) : Net.Message :=
  .msg {
    v := Net.PROTOCOL_VERSION
    room := account.roomId primitives
    epoch := 0
    msgId := id.1
    n := List.replicate 24 4
    ct := Crypto.Msg.encodePlaintext kind body ++ List.replicate 16 0
    to_ := none }

def arrives (id : MsgId) (kind : Kind) (body : Bytes) : Occurrence :=
  .call (.frame (message id kind body).toFrame 0 Net.Session.BringUp.draws)

def draws : MessageDraws :=
  ⟨0, 0, fun _ => ⟨0, .ok [], true⟩, ⟨.ok (), .ok (), .ok ()⟩, true, true⟩

def offerId : MsgId := ByteArr.fill 16 5

/-- The ids of the other messages. -/
def otherId (i : Nat) : MsgId :=
  ⟨UInt8.ofNat i :: List.replicate 15 0, rfl⟩

def others : List MsgId :=
  (List.range 256).map otherId

def connects : List Occurrence :=
  [.hello "", .call (.frame Net.Session.BringUp.challenge.toFrame 0 Net.Session.BringUp.draws),
    .call (.frame Net.Session.BringUp.authOk.toFrame 0 Net.Session.BringUp.draws),
    .transfers (.attach (ByteArr.fill 32 9) laptop (account.roomIdBytes primitives) devices),
    .transfers (.connected "c" true), arrives offerId .fileOffer offer]

def between : List Occurrence :=
  [.transfers (.decline file true), .transfers .clearFinished] ++
    others.map (fun id => arrives id .fileCancel cancel) ++ [arrives offerId .fileOffer offer] ++
    List.replicate 256 (.deliver draws)

def start : Receiver :=
  Receiver.start account laptop 0 devices Table.empty

/-- The daemon with its session let in. -/
def ready (seen taken : List MsgId) (inbox : List (Nat × Kind × Bytes)) (s : State) : Receiver where
  connection := ⟨{ Net.Session.BringUp.readySession account laptop with msgSeen := seen }, false⟩
  inbox := inbox
  transfers := s
  taken := taken

theorem step_frame {s t : Net.Session} {m : Net.Message} {actions : List Net.Action}
    (hversion : m.version = Net.PROTOCOL_VERSION)
    (h : s.handleMessage primitives m 0 Net.Session.BringUp.draws = (t, .ok actions)) :
    Connection.step primitives Net.serdeJson ⟨s, false⟩
      (.frame m.toFrame 0 Net.Session.BringUp.draws) = (⟨t, false⟩, actions) := by
  have hframe : Net.Session.frameOf Net.serdeJson m.toFrame = some m :=
    Net.Session.frameOf_toFrame (Net.serdeJson_text m.toJson_plain) hversion
  simp only [Connection.step, Bool.false_eq_true, if_false, Connection.call,
    Net.Session.handleFrame_some hframe, h]

theorem sealedHeader_message (id : MsgId) (kind : Kind) (body : Bytes) :
    Net.Session.sealedHeader id.1 (List.replicate 24 4)
      (Crypto.Msg.encodePlaintext kind body ++ List.replicate 16 0) =
        .ok (id, ByteArr.fill 24 4) := by
  have hid : Net.Session.fixed "msg_id" Core.MSG_ID_LEN id.1 = .ok id := by
    rw [Net.Session.fixed, ByteArr.ofBytes?_val]
  have hnonce : Net.Session.fixed "n" Crypto.NONCE_LEN (List.replicate 24 4) =
      .ok (ByteArr.fill 24 4) := rfl
  have hlong : ¬(Crypto.Msg.encodePlaintext kind body ++ List.replicate 16 0).length ≤
      Crypto.TAG_LEN := by
    show ¬_ ≤ 16
    rw [Crypto.Msg.encodePlaintext]
    simp only [List.length_append, List.length_cons, List.length_replicate]
    omega
  simp only [Net.Session.sealedHeader, hid, hnonce, Result.ok_bind, if_neg hlong]
  rfl

theorem open_message (key : Crypto.Key) (room : Crypto.RoomId) (id : MsgId) {kind : Kind}
    {body : Bytes} (hread : Crypto.Msg.decodePlaintext (Crypto.Msg.encodePlaintext kind body) =
      .ok (kind, body)) :
    Crypto.Msg.open_ primitives key 0 room id (ByteArr.fill 24 4)
      (Crypto.Msg.encodePlaintext kind body ++ List.replicate 16 0) = .ok (kind, body) := by
  have hopened : Crypto.openTyped primitives Crypto.Msg.TYPE_MSG key 0 room id (ByteArr.fill 24 4)
      (Crypto.Msg.encodePlaintext kind body ++ List.replicate 16 0) =
        .ok (Crypto.Msg.encodePlaintext kind body) := by
    simp only [Crypto.openTyped, Net.Session.KeptBack.primitives, List.length_append,
      List.length_replicate, Nat.add_sub_cancel, List.take_left]
  rw [Crypto.Msg.open_, hopened, Result.ok_bind]
  exact hread

/-- A message of the account is taken when its id is not remembered. -/
theorem step_arrives (seen taken : List MsgId) (inbox : List (Nat × Kind × Bytes)) (s : State)
    (id : MsgId) (kind : Kind) (body : Bytes) (hnew : id ∉ seen) (hcard : kind ≠ .card)
    (hrekey : kind ≠ .rekey)
    (hread : Crypto.Msg.decodePlaintext (Crypto.Msg.encodePlaintext kind body) = .ok (kind, body)) :
    (ready seen taken inbox s).step primitives Net.serdeJson (arrives id kind body) =
      ready (Net.Session.remember Net.MSG_SEEN_CAPACITY seen id) (taken ++ [id])
        (inbox ++ [(taken.length, kind, body)]) s := by
  have hmsg : (ready seen taken inbox s).connection.session.handleMessage primitives
      (message id kind body) 0 Net.Session.BringUp.draws =
        ((ready (Net.Session.remember Net.MSG_SEEN_CAPACITY seen id) taken inbox
          s).connection.session, .ok [.message kind body]) := by
    simp only [Net.Session.handleMessage, message, Net.Session.onMsg, sealedHeader_message,
      open_message _ _ _ hread]
    have hunseen : id ∉ (ready seen taken inbox s).connection.session.msgSeen := hnew
    have hroom : ¬(account.roomId primitives ≠
        (ready seen taken inbox s).connection.session.identity.roomId primitives ∨
        (!(ready seen taken inbox s).connection.session.epochIsAcceptable 0) = true) := by
      rintro (h | h)
      · exact h rfl
      · exact Bool.false_ne_true h
    rw [if_neg (fun h => h rfl), if_neg hroom, if_neg hunseen]
    cases kind with
    | card => exact absurd rfl hcard
    | rekey => exact absurd rfl hrekey
    | joinRequest | joinGrant | joinDecline | joinWhere | about | leave | fileOffer | fileAnswer
    | fileChunk | fileAck | fileCancel | other code => rfl
  have hstep := step_frame (m := message id kind body) rfl hmsg
  have hseen : newlySeen (ready seen taken inbox s).connection.session
      (ready (Net.Session.remember Net.MSG_SEEN_CAPACITY seen id) taken inbox s).connection.session
        = [id] :=
    newlySeen_remember hnew rfl
  simp only [step, arrives]
  rw [show (ready seen taken inbox s).connection =
    ⟨(ready seen taken inbox s).connection.session, false⟩ from rfl, hstep]
  simp only [hseen]
  rfl

/-- A frame that takes no message leaves the rest as it is. -/
theorem step_quiet {r : Receiver} {s t : Net.Session} {m : Net.Message}
    (hconn : r.connection = ⟨s, false⟩) (hversion : m.version = Net.PROTOCOL_VERSION)
    (h : ∃ actions, s.handleMessage primitives m 0 Net.Session.BringUp.draws = (t, .ok actions) ∧
      actions.filterMap Net.Action.handed? = [])
    (hseen : t.msgSeen = s.msgSeen) :
    r.step primitives Net.serdeJson (.call (.frame m.toFrame 0 Net.Session.BringUp.draws)) =
      { r with connection := ⟨t, false⟩ } := by
  rcases h with ⟨actions, hmessage, hnone⟩
  simp only [step, hconn, step_frame hversion hmessage, hnone, newlySeen_same hseen, List.map_nil,
    List.append_nil]

/-- The daemon once it is connected and the offer has come in. -/
def attached : State :=
  (((State.default devices Table.empty).step primitives (.attach (ByteArr.fill 32 9) laptop
    (account.roomIdBytes primitives) devices)).1.step primitives (.connected "c" true)).1

def challenged : Net.Session :=
  { ((Net.Session.new account laptop 0).helloFrame "").1 with
    phase := .authenticating
    limits := some Net.Session.BringUp.limits }

theorem run_connects :
    start.run primitives Net.serdeJson connects =
      ready [offerId] [offerId] [(0, .fileOffer, offer)] attached := by
  have hchallenge := step_quiet (r := start.step primitives Net.serdeJson (.hello ""))
    (m := Net.Session.BringUp.challenge) (t := challenged) rfl rfl ⟨_, rfl, rfl⟩ rfl
  have hauthOk := step_quiet
    (r := { start.step primitives Net.serdeJson (.hello "") with connection :=
        ⟨challenged, false⟩ })
    (m := Net.Session.BringUp.authOk) (t := Net.Session.BringUp.readySession account laptop) rfl rfl
    ⟨_, rfl, rfl⟩ rfl
  have harrives := step_arrives [] [] [] attached offerId .fileOffer offer List.not_mem_nil
    (by decide) (by decide) (by decide +kernel)
  calc start.run primitives Net.serdeJson connects
      = ([.transfers (.attach (ByteArr.fill 32 9) laptop (account.roomIdBytes primitives) devices),
          .transfers (.connected "c" true), arrives offerId .fileOffer offer] :
            List Occurrence).foldl (step primitives Net.serdeJson)
          { start.step primitives Net.serdeJson (.hello "") with
            connection := ⟨Net.Session.BringUp.readySession account laptop, false⟩ } := by
        rw [run, connects, List.foldl_cons, List.foldl_cons, List.foldl_cons, hchallenge, hauthOk]
    _ = (ready [] [] [] attached).step primitives Net.serdeJson
          (arrives offerId .fileOffer offer) := rfl
    _ = ready [offerId] [offerId] [(0, .fileOffer, offer)] attached := harrives

/-- Messages that are all new are all taken, and the window keeps the last of them. -/
theorem run_arrives (taken : List MsgId) (inbox : List (Nat × Kind × Bytes)) (s : State)
    (ids : List MsgId) (hnew : (taken ++ ids).Nodup) :
    (ready (taken.rtake Net.MSG_SEEN_CAPACITY) taken inbox s).run primitives Net.serdeJson
        (ids.map fun id => arrives id .fileCancel cancel) =
      ready ((taken ++ ids).rtake Net.MSG_SEEN_CAPACITY) (taken ++ ids)
        (inbox ++ (List.range' taken.length ids.length).map fun n => (n, .fileCancel, cancel))
        s := by
  induction ids generalizing taken inbox with
  | nil => simp [run]
  | cons id ids ih =>
      have hfresh : id ∉ taken.rtake Net.MSG_SEEN_CAPACITY := by
        intro hmem
        have hmem' : id ∈ taken := List.mem_of_mem_drop hmem
        exact (List.nodup_append.mp hnew).2.2 id hmem' id List.mem_cons_self rfl
      have hrest : (taken ++ [id] ++ ids).Nodup := by
        rw [List.append_assoc]
        exact hnew
      have hstep := step_arrives (taken.rtake Net.MSG_SEEN_CAPACITY) taken inbox s id .fileCancel
        cancel hfresh (by decide) (by decide) (by decide +kernel)
      rw [remember_window] at hstep
      rw [List.map_cons, run, List.foldl_cons, hstep]
      refine (ih _ _ hrest).trans ?_
      simp [List.range'_succ]

/-- Calling off what is not under way changes nothing. -/
theorem run_cancels (seen taken : List MsgId) {s : State}
    (hsending : s.sending.get? other = none) (hreceiving : s.receiving.get? other = none)
    (ns : List Nat) (rest : List (Nat × Kind × Bytes)) :
    (ready seen taken ((ns.map fun n => (n, .fileCancel, cancel)) ++ rest) s).run primitives
        Net.serdeJson (List.replicate ns.length (.deliver draws)) =
      ready seen taken rest s := by
  have hcancel : (s.step primitives (.message .fileCancel cancel draws)).1 = s := by
    have hdecode : Crypto.Cancel.decode cancel = .ok ⟨other⟩ := by decide +kernel
    simp only [State.step, State.onMessage, State.onCancel, hdecode, State.cancelHere,
      State.cancelSending, State.cancelReceiving, hsending, hreceiving]
  induction ns with
  | nil => rfl
  | cons n ns ih =>
      rw [List.length_cons, List.replicate_succ, run, List.foldl_cons]
      refine Eq.trans ?_ ih
      congr 1
      simp only [step, ready, List.map_cons, List.cons_append, hcancel]

/-- The person is asked, declines and clears the list. -/
theorem run_declined (seen taken : List MsgId) (n : Nat) (s : State) :
    (ready seen taken [(n, .fileOffer, offer)] s).run primitives Net.serdeJson
        [.deliver draws, .transfers (.decline file true), .transfers .clearFinished] =
      ready seen taken [] (((s.step primitives (.message .fileOffer offer draws)).1.step primitives
        (.decline file true)).1.step primitives .clearFinished).1 := rfl

theorem others_nodup : others.Nodup := by
  refine List.Nodup.map_on ?_ List.nodup_range
  intro i hi j hj heq
  have hbyte : UInt8.ofNat i = UInt8.ofNat j :=
    (List.cons.inj (congrArg Subtype.val heq)).1
  have hnat := congrArg UInt8.toNat hbyte
  rw [UInt8.toNat_ofNat', UInt8.toNat_ofNat', Nat.mod_eq_of_lt (List.mem_range.mp hi),
    Nat.mod_eq_of_lt (List.mem_range.mp hj)] at hnat
  exact hnat

theorem offerId_not_mem_others : offerId ∉ others := by
  intro hmem
  rcases List.mem_map.mp hmem with ⟨i, -, heq⟩
  have hrest := (List.cons.inj (congrArg Subtype.val heq)).2
  exact absurd hrest (by decide)

/-- The transfers after the person was asked, declined and cleared the list. -/
def cleared : State :=
  (((attached.step primitives (.message .fileOffer offer draws)).1.step primitives
    (.decline file true)).1.step primitives .clearFinished).1

def asked : DeviceId × String × String × UInt64 :=
  (phone, "phone", "n", 3)

/-- The offer is asked about whenever it comes in and is not in the list. -/
theorem asked_attached :
    (attached.onMessage primitives .fileOffer offer draws).2.2 = some asked := by
  decide +kernel

theorem asked_cleared : (cleared.onMessage primitives .fileOffer offer draws).2.2 = some asked := by
  decide +kernel

def offered : Offer where
  offerId := file
  fromDeviceId := phone
  toDeviceId := laptop
  size := 3
  sha256 := ByteArr.fill 32 0
  chunkBytes := 3
  tsMs := 0
  replyTo := "b"
  name := "n"
  direct := none

theorem signed_of_link {s : State} (hlink : s.link = attached.link)
    (hdevices : s.devices = devices) : SignedOffer primitives s offer offered := by
  have hpinned : ∃ pinned, devices.pinnedAs phone = some pinned ∧
      pinned.signPub = phoneKeys.signPub primitives := by
    refine ⟨_, rfl, ?_⟩
    decide +kernel
  rcases hpinned with ⟨pinned, hpinned, hkey⟩
  refine ⟨_, phone, pinned, hlink, by decide +kernel, ?_, ?_⟩
  · rw [hdevices]
    exact hpinned
  · rw [hkey]
    decide +kernel

/-- What is left of the window once the other messages came in. -/
theorem others_rtake : ([offerId] ++ others).rtake Net.MSG_SEEN_CAPACITY = others := by
  have hlength : others.length = 256 := by
    rw [others, List.length_map, List.length_range]
  have hdrop : ([offerId] ++ others).length - Net.MSG_SEEN_CAPACITY = 1 := by
    rw [List.length_append, hlength]
    rfl
  rw [List.rtake, hdrop]
  rfl

def again : Receiver :=
  ready (Net.Session.remember Net.MSG_SEEN_CAPACITY others offerId)
      ([offerId] ++ others ++ [offerId])
    [(257, .fileOffer, offer)] cleared

theorem run_between :
    start.run primitives Net.serdeJson (connects ++ .deliver draws :: between) = again := by
  have hlength : others.length = 256 := by
    rw [others, List.length_map, List.length_range]
  have hdeclined : (ready [offerId] [offerId] [(0, .fileOffer, offer)] attached).run primitives
      Net.serdeJson [.deliver draws, .transfers (.decline file true), .transfers .clearFinished] =
        ready [offerId] [offerId] [] cleared :=
    run_declined [offerId] [offerId] 0 attached
  have harrived := run_arrives [offerId] [] cleared others
    (List.nodup_cons.mpr ⟨offerId_not_mem_others, others_nodup⟩)
  rw [Window.rtake_eq_self (by decide)] at harrived
  have hrepeated := step_arrives others ([offerId] ++ others)
    ((List.range' 1 256).map fun n => (n, .fileCancel, cancel)) cleared offerId .fileOffer offer
    offerId_not_mem_others (by decide) (by decide) (by decide +kernel)
  have hcancelled := run_cancels (s := cleared)
    (Net.Session.remember Net.MSG_SEEN_CAPACITY others offerId) ([offerId] ++ others ++ [offerId])
    (by decide +kernel) (by decide +kernel) (List.range' 1 256) [(257, .fileOffer, offer)]
  rw [others_rtake, hlength] at harrived
  rw [List.length_append, hlength] at hrepeated
  rw [List.length_range'] at hcancelled
  have hsplit : connects ++ .deliver draws :: between =
      connects ++ [.deliver draws, .transfers (.decline file true), .transfers .clearFinished] ++
        others.map (fun id => arrives id .fileCancel cancel) ++
            [arrives offerId .fileOffer offer] ++
        List.replicate 256 (.deliver draws) := by
    simp only [between, List.append_assoc, List.cons_append, List.nil_append]
  have happend : ∀ (r : Receiver) (es more : List Occurrence),
      r.run primitives Net.serdeJson (es ++ more) =
        (r.run primitives Net.serdeJson es).run primitives Net.serdeJson more :=
    fun r es more => List.foldl_append
  rw [hsplit, happend, happend, happend, happend, run_connects, hdeclined, harrived]
  refine Eq.trans ?_ hcancelled
  exact congrArg (fun r => Receiver.run primitives Net.serdeJson r
    (List.replicate 256 (.deliver draws))) hrepeated

theorem reports_before :
    (start.run primitives Net.serdeJson connects).Reports primitives (.deliver draws) file 0 := by
  rw [run_connects]
  exact ⟨draws, offer, [], offered, asked, rfl, rfl, signed_of_link rfl rfl, rfl, asked_attached⟩

theorem reports_again :
    (start.run primitives Net.serdeJson (connects ++ .deliver draws :: between)).Reports primitives
      (.deliver draws) file 257 := by
  rw [run_between]
  exact ⟨draws, offer, [], offered, asked, rfl, rfl,
    signed_of_link (by decide +kernel) (by decide +kernel), rfl, asked_cleared⟩

end RepeatedOffer

/-! ## Asked again -/

namespace Receiver

variable {P : Primitives} {T : JsonText}

/-- Between two times the person is asked about one offer, in any run of a daemon, it was over and
the finished transfers were cleared; the message it came in was taken later, and if it has the same
id, the window has moved past the first one; and the second time too it is recent, and not from a
device known to have left the connection it was made on. -/
theorem asked_again (P : Primitives) (T : JsonText) (account : Identity) (device : DeviceId)
    (seq : UInt64) (devices : Registry) (disk : Disk) (past mid : List Occurrence)
    (first second : Occurrence) (id : OfferId) (n m : Nat) :
    let before := (start account device seq devices disk).run P T past
    let again := (start account device seq devices disk).run P T (past ++ first :: mid)
    before.Reports P first id n → again.Reports P second id m →
      Runs.Earlier (step P T) (fun r e => r.Clears id e) (before.step P T first) mid ∧
      n < m ∧ m < again.taken.length ∧
      (again.taken[n]? = again.taken[m]? → n + Net.MSG_SEEN_CAPACITY < m) ∧
      again.Timely P second id := by
  intro before again hfirst hsecond
  have hbefore : Ordered before := run_ordered (start_ordered account device seq devices disk) past
  have hsplit : again = (before.step P T first).run P T mid := by
    show List.foldl (step P T) _ (past ++ first :: mid) = _
    rw [List.foldl_append]
    rfl
  have hordered : Ordered again :=
    run_ordered (start_ordered account device seq devices disk) (past ++ first :: mid)
  have hpast : Past n again := by
    rw [hsplit]
    exact Runs.invariant (step P T) (Past n) (c := fun _ _ => True) (fun _ e h _ => step_past h e)
      mid (hfirst.past hbefore) Runs.along_true
  rcases hsecond.place (T := T) with ⟨kind, body, rest, hinbox, -, -⟩
  have hmem : (m, kind, body) ∈ again.inbox := by
    rw [hinbox]
    exact List.mem_cons_self
  have hlater : n < m := hpast.inbox _ hmem
  have hplace : m < again.taken.length := hordered.taken _ hmem
  refine ⟨?_, hlater, hplace, ?_, hsecond.timely⟩
  · -- the first report put the offer in the list, and it is gone before the second
    have hlost := Runs.Earlier.lost (step P T)
      (p := fun r : Receiver => r.transfers.WellKeyed ∧
        (r.transfers.receiving.get? id).isSome = true)
      ⟨step_keyed hbefore.keyed first, hfirst.listed⟩ mid (by
        intro hlisted
        have hnone := hsecond.absent
        rw [hsplit] at hnone
        have hsome := hlisted.2
        rw [show List.foldl (step P T) (before.step P T first) mid =
          (before.step P T first).run P T mid from rfl, hnone] at hsome
        cases hsome)
    refine hlost.mono ?_
    rintro r e ⟨⟨hkeyed, hlisted⟩, hgone⟩
    exact step_clears hkeyed hlisted fun hstill => hgone ⟨step_keyed hkeyed e, hstill⟩
  · intro hsame
    exact hordered.apart n m _ hlater (hsame.trans (List.getElem?_eq_getElem hplace))
      (List.getElem?_eq_getElem hplace)

/-- The repeated offer was cleared, and the window had moved past it. -/
theorem asked_again_repeated :
    let before := RepeatedOffer.start.run RepeatedOffer.primitives Net.serdeJson
      RepeatedOffer.connects
    let again := RepeatedOffer.start.run RepeatedOffer.primitives Net.serdeJson
      (RepeatedOffer.connects ++ .deliver RepeatedOffer.draws :: RepeatedOffer.between)
    Runs.Earlier (step RepeatedOffer.primitives Net.serdeJson)
        (fun r e => r.Clears RepeatedOffer.file e)
        (before.step RepeatedOffer.primitives Net.serdeJson (.deliver RepeatedOffer.draws))
        RepeatedOffer.between ∧
      0 < 257 ∧ 257 < again.taken.length ∧
      (again.taken[0]? = again.taken[257]? → 0 + Net.MSG_SEEN_CAPACITY < 257) ∧
      again.Timely RepeatedOffer.primitives (.deliver RepeatedOffer.draws) RepeatedOffer.file :=
  asked_again RepeatedOffer.primitives Net.serdeJson RepeatedOffer.account RepeatedOffer.laptop 0
    RepeatedOffer.devices Table.empty RepeatedOffer.connects RepeatedOffer.between
    (.deliver RepeatedOffer.draws) (.deliver RepeatedOffer.draws) RepeatedOffer.file 0 257
    RepeatedOffer.reports_before RepeatedOffer.reports_again

/-- A relay that repeats one message has the person asked about it twice. -/
theorem asked_twice :
    ¬ ∀ (P : Primitives) (T : JsonText) (account : Identity) (device : DeviceId) (seq : UInt64)
        (devices : Registry) (disk : Disk) (past mid : List Occurrence) (first second : Occurrence)
        (id : OfferId) (n m : Nat),
      let before := (start account device seq devices disk).run P T past
      let again := (start account device seq devices disk).run P T (past ++ first :: mid)
      before.Reports P first id n → again.Reports P second id m →
        again.taken[n]? ≠ again.taken[m]? := by
  intro hclaim
  have hdiffer := hclaim RepeatedOffer.primitives Net.serdeJson RepeatedOffer.account
    RepeatedOffer.laptop 0 RepeatedOffer.devices Table.empty RepeatedOffer.connects
    RepeatedOffer.between (.deliver RepeatedOffer.draws) (.deliver RepeatedOffer.draws)
    RepeatedOffer.file 0 257 RepeatedOffer.reports_before RepeatedOffer.reports_again
  apply hdiffer
  have htaken : (RepeatedOffer.start.run RepeatedOffer.primitives Net.serdeJson
      (RepeatedOffer.connects ++ .deliver RepeatedOffer.draws :: RepeatedOffer.between)).taken =
        [RepeatedOffer.offerId] ++ RepeatedOffer.others ++ [RepeatedOffer.offerId] :=
    congrArg Receiver.taken RepeatedOffer.run_between
  show (RepeatedOffer.start.run RepeatedOffer.primitives Net.serdeJson _).taken[0]? =
    (RepeatedOffer.start.run RepeatedOffer.primitives Net.serdeJson _).taken[257]?
  rw [htaken]
  decide +kernel

end Receiver
end App
end Asli
