import Asli.App.Passage

/-!
# PassageSteps — what a step of two devices keeps of one file

`ReceiverSide` says how the receiver's record and its thread stand to the pieces that were put on
their way, `SenderSide` the same for the sender.  Each is kept by every event of its device, and by
what the other device puts on its way meanwhile.
-/

namespace Asli
namespace App

open Logic
open Crypto (Primitives Kind OfferId Offer Answer Chunk Ack AckState)
open Net (LocalEvent)

/-! ## A record and its pieces -/

/-- All pieces of an offer, and together they are the file that was offered. -/
structure Whole (P : Primitives) (offer : Offer) (pieces : List Bytes) : Prop where
  all : offer.chunkCount ≤ pieces.length
  size : (pieces.take offer.chunkCount).flatten.length = offer.size.toNat
  digest : P.sha256 (pieces.take offer.chunkCount).flatten = offer.sha256

theorem Whole.append {P : Primitives} {offer : Offer} {pieces : List Bytes}
    (h : Whole P offer pieces) (more : List Bytes) : Whole P offer (pieces ++ more) := by
  have hsame : (pieces ++ more).take offer.chunkCount = pieces.take offer.chunkCount :=
    List.take_append_of_le_length h.all
  refine ⟨?_, hsame ▸ h.size, hsame ▸ h.digest⟩
  rw [List.length_append]
  exact Nat.le_add_right_of_le h.all

/-- A record has taken the first of the pieces, in order, and is done only when they are all of the
file. -/
structure Incoming.Takes (P : Primitives) (offer : Offer) (pieces : List Bytes) (i : Incoming) :
    Prop where
  offer_eq : i.offer = offer
  came : i.received ≤ pieces.length
  count : i.received ≤ offer.chunkCount
  fresh : i.stage = .offered → i.received = 0
  shown : ∀ n, i.stage = .moving n → n = i.received
  fed : i.stage.finished = false →
    i.hasher = (pieces.take i.received).flatten ∧ i.written = i.hasher.length
  done : ∀ kept, i.stage = .done kept →
    kept.isSome = true ∧ i.received = offer.chunkCount ∧ Whole P offer pieces

section Takes

variable {P : Primitives} {offer : Offer} {pieces : List Bytes} {i i' : Incoming}

theorem Incoming.Takes.append (h : i.Takes P offer pieces) (more : List Bytes) :
    i.Takes P offer (pieces ++ more) where
  offer_eq := h.offer_eq
  came := by
    rw [List.length_append]
    exact Nat.le_add_right_of_le h.came
  count := h.count
  fresh := h.fresh
  shown := h.shown
  fed := by
    intro hlive
    rw [List.take_append_of_le_length h.came]
    exact h.fed hlive
  done := by
    intro kept hkept
    rcases h.done kept hkept with ⟨hpath, hall, hwhole⟩
    exact ⟨hpath, hall, hwhole.append more⟩

/-- A record that stopped with what it had. -/
theorem Incoming.Takes.stop (h : i.Takes P offer pieces) (hoffer : i'.offer = i.offer)
    (hreceived : i'.received = i.received) (hstopped : i'.stage.stopped) :
    i'.Takes P offer pieces where
  offer_eq := hoffer.trans h.offer_eq
  came := hreceived ▸ h.came
  count := hreceived ▸ h.count
  fresh := fun hoffered => absurd hoffered hstopped.not_offered
  shown := by
    intro n hn
    have hmoving := hstopped.isMoving
    rw [hn] at hmoving
    cases hmoving
  fed := by
    intro hlive
    rcases hstopped with hstage | hstage | ⟨why, hstage⟩
    · rw [hstage] at hlive; cases hlive
    · rw [hstage] at hlive; cases hlive
    · rw [hstage] at hlive; cases hlive
  done := by
    intro kept hkept
    rcases hstopped with hstage | hstage | ⟨why, hstage⟩
    · rw [hstage] at hkept; cases hkept
    · rw [hstage] at hkept; cases hkept
    · rw [hstage] at hkept; cases hkept

/-- The fields that do not count may change. -/
theorem Incoming.Takes.of_eq (h : i.Takes P offer pieces) (hoffer : i'.offer = i.offer)
    (hreceived : i'.received = i.received) (hstage : i'.stage = i.stage)
    (hhasher : i'.hasher = i.hasher) (hwritten : i'.written = i.written) :
    i'.Takes P offer pieces := by
  cases i
  cases i'
  cases hoffer
  cases hreceived
  cases hstage
  cases hhasher
  cases hwritten
  exact ⟨h.offer_eq, h.came, h.count, h.fresh, h.shown, h.fed, h.done⟩

/-- One piece more is the next of the pieces. -/
theorem Took.takes {data : Bytes} {now : Instant} {disk disk' : Disk} {ended : Option AckState}
    (h : Took P i data now disk i' disk' ended) (hi : i.Takes P offer pieces)
    (hmoving : i.stage.isMoving = true) (hpiece : pieces[i.received]? = some data)
    (hfits : offer.chunkCount < 2 ^ 32) :
    i'.Takes P offer pieces ∧ i'.received = i.received + 1 ∧
      (ended = some .done → ∃ path, i'.stage = .done (some path)) := by
  have hoffer := hi.offer_eq
  have hcame : i.received + 1 ≤ pieces.length := (List.getElem?_eq_some_iff.mp hpiece).1
  rcases hi.fed (Stage.unfinished_of_moving hmoving) with ⟨hhasher, hwritten⟩
  have hnext : i.hasher ++ data = (pieces.take (i.received + 1)).flatten := by
    rw [List.take_add_one, hpiece, hhasher, List.flatten_append]
    simp
  cases h with
  | @more part hpart hlen hless hmore =>
      rw [hoffer] at hless hmore
      have hcount : (i.received + 1) % 2 ^ 32 = i.received + 1 := Nat.mod_eq_of_lt (by omega)
      refine ⟨⟨hoffer, ?_, ?_, nofun, ?_, ?_, nofun⟩, hcount, nofun⟩
      · exact hcount.le.trans hcame
      · exact hcount.le.trans hless
      · intro n hn
        cases hn
        rfl
      · intro _
        refine ⟨?_, ?_⟩
        · change i.hasher ++ data = (pieces.take ((i.received + 1) % 2 ^ 32)).flatten
          rw [hcount, hnext]
        · change i.written + data.length = (i.hasher ++ data).length
          rw [List.length_append, hwritten]
  | @kept part target hpart hlen hless hlast hdigest hsize =>
      rw [hoffer] at hless hlast hdigest hsize
      have hcount : (i.received + 1) % 2 ^ 32 = i.received + 1 := Nat.mod_eq_of_lt (by omega)
      have hall : i.received + 1 = offer.chunkCount := hcount.symm.trans hlast
      refine ⟨⟨hoffer, hcount.le.trans hcame, hlast.le, nofun, nofun, nofun, ?_⟩, hcount, ?_⟩
      · intro kept hkept
        cases hkept
        refine ⟨rfl, hlast, hall ▸ hcame, ?_, ?_⟩
        · rw [← hall, ← hnext, List.length_append, ← hwritten]
          exact hsize
        · rw [← hall, ← hnext]
          exact hdigest
      · exact fun _ => ⟨target, rfl⟩
  | @thrown part why hpart hlen hless hlast =>
      rw [hoffer] at hless hlast
      have hcount : (i.received + 1) % 2 ^ 32 = i.received + 1 := Nat.mod_eq_of_lt (by omega)
      exact ⟨⟨hoffer, hcount.le.trans hcame, hlast.le, nofun, nofun, nofun, nofun⟩, hcount, nofun⟩

end Takes

namespace Passage

variable {P : Primitives} {offer : Offer} {id : OfferId}

/-! ## The receiver -/

/-- Anything is so of a record that is not there. -/
theorem absent {α : Type} {p : α → Prop} : ∀ a, none = some a → p a := by
  rintro a ⟨⟩

/-- A file that was kept. -/
def IsKept (i : Incoming) : Prop :=
  ∃ path, i.stage = .done (some path)

/-- The pieces a record takes: those on the direct stream, or those that come through the relay. -/
def source (i : Incoming) (stream relayed : List Bytes) : List Bytes :=
  if i.direct then stream else relayed

/-- The receiver has answered through the relay, and its thread is over. -/
def Settled (fetching : Fetching) (y : Option Incoming) : Prop :=
  fetching = .over ∧ ∀ i, y = some i → i.direct = false ∧ i.stage ≠ .offered

/-- So many pieces have come through the relay, as far as the receiver has a record. -/
def Reached (relayed : List Bytes) (y : Option Incoming) (n : Nat) : Prop :=
  n ≤ relayed.length ∧ ∀ i, y = some i → n ≤ i.received

/-- All pieces came one way or the other, and the receiver kept the file. -/
def Kept (P : Primitives) (offer : Offer) (stream relayed : List Bytes) (y : Option Incoming) :
    Prop :=
  (Whole P offer stream ∨ Whole P offer relayed) ∧ ∀ i, y = some i → IsKept i

/-- Where the thread stands on the stream, and what its record has taken of it. -/
def FetchingAt (stream : List Bytes) (read : Nat) (y : Option Incoming) : Fetching → Prop
  | .over => True
  | .reaching | .asking => read = 0
  | .opened data => read = 1 ∧ stream[0]? = some data ∧ ∀ i, y = some i → i.direct = false
  | .holding data =>
      0 < read ∧ stream[read - 1]? = some data ∧
        ∀ i, y = some i → i.direct = true ∧ (i.stage.isMoving = true → i.received + 1 = read)
  | .reading =>
      0 < read ∧
        ∀ i, y = some i → i.direct = true ∧ (i.stage.isMoving = true → i.received = read)

structure ReceiverSide (P : Primitives) (offer : Offer) (stream relayed : List Bytes) (read : Nat)
    (fetching : Fetching) (y : Option Incoming) : Prop where
  takes : ∀ i, y = some i → i.Takes P offer (source i stream relayed)
  owed : ∀ i received state, y = some i → i.owedAck = some (received, state) →
    Reached relayed y received ∧ (state = .done → IsKept i)
  waiting : ∀ i, y = some i → i.stage = .offered →
    i.direct = false ∧ fetching = .over ∧ read = 0
  directed : ∀ i, y = some i → i.direct = true → 0 < read
  settled : relayed ≠ [] → Settled fetching y
  read_le : read ≤ stream.length
  thread : FetchingAt stream read y fetching

/-- What no event takes back of a record. -/
structure Follows (i i' : Incoming) : Prop where
  received : i.received ≤ i'.received
  direct : i'.direct = i.direct
  waiting : i'.stage = .offered → i.stage = .offered
  kept : IsKept i → IsKept i'

theorem Follows.refl (i : Incoming) : Follows i i :=
  ⟨le_refl _, rfl, fun h => h, fun h => h⟩

theorem Reached.zero (relayed : List Bytes) (y : Option Incoming) : Reached relayed y 0 :=
  ⟨Nat.zero_le _, fun _ _ => Nat.zero_le _⟩

theorem Reached.max {relayed : List Bytes} {y : Option Incoming} {m n : Nat}
    (hm : Reached relayed y m) (hn : Reached relayed y n) : Reached relayed y (max m n) :=
  ⟨max_le hm.1 hn.1, fun i hi => max_le (hm.2 i hi) (hn.2 i hi)⟩

theorem Reached.of_le {relayed : List Bytes} {y : Option Incoming} {m n : Nat}
    (h : Reached relayed y n) (hle : m ≤ n) : Reached relayed y m :=
  ⟨hle.trans h.1, fun i hi => hle.trans (h.2 i hi)⟩

theorem Reached.append {relayed : List Bytes} {y : Option Incoming} {n : Nat}
    (h : Reached relayed y n) (more : List Bytes) : Reached (relayed ++ more) y n := by
  refine ⟨?_, h.2⟩
  rw [List.length_append]
  exact Nat.le_add_right_of_le h.1

theorem Reached.follows {relayed : List Bytes} {i i' : Incoming} {n : Nat}
    (h : Reached relayed (some i) n) (hf : Follows i i') : Reached relayed (some i') n := by
  refine ⟨h.1, ?_⟩
  rintro j ⟨⟩
  exact (h.2 i rfl).trans hf.received

theorem Settled.follows {fetching : Fetching} {i i' : Incoming} (h : Settled fetching (some i))
    (hf : Follows i i') : Settled fetching (some i') := by
  refine ⟨h.1, ?_⟩
  rintro j ⟨⟩
  rcases h.2 i rfl with ⟨hdirect, hpast⟩
  exact ⟨hf.direct.trans hdirect, fun hoffered => hpast (hf.waiting hoffered)⟩

/-- A record that is done has all pieces of its file. -/
theorem ReceiverSide.whole {stream relayed : List Bytes} {read : Nat} {fetching : Fetching}
    {i : Incoming} (h : ReceiverSide P offer stream relayed read fetching (some i))
    (hkept : IsKept i) : Kept P offer stream relayed (some i) := by
  rcases hkept with ⟨path, hdone⟩
  rcases (h.takes i rfl).done _ hdone with ⟨-, -, hwhole⟩
  refine ⟨?_, ?_⟩
  · unfold source at hwhole
    split at hwhole
    · exact .inl hwhole
    · exact .inr hwhole
  · rintro j ⟨⟩
    exact ⟨path, hdone⟩

/-- A change that touches nothing a record has taken. -/
theorem ReceiverSide.same {stream relayed : List Bytes} {read : Nat} {fetching : Fetching}
    {i i' : Incoming} (h : ReceiverSide P offer stream relayed read fetching (some i))
    (hf : Follows i i') (hreceived : i'.received = i.received)
    (htakes : i'.Takes P offer (source i stream relayed))
    (hmoving : i'.stage.isMoving = true → i.stage.isMoving = true)
    (howed : ∀ owed, i'.owedAck = some owed → i.owedAck = some owed) :
    ReceiverSide P offer stream relayed read fetching (some i') where
  takes := by
    rintro j ⟨⟩
    rw [source, hf.direct]
    exact htakes
  owed := by
    rintro j received state ⟨⟩ hj
    rcases h.owed i received state rfl (howed _ hj) with ⟨hreached, hdone⟩
    exact ⟨hreached.follows hf, fun hstate => hf.kept (hdone hstate)⟩
  waiting := by
    rintro j ⟨⟩ hoffered
    rcases h.waiting i rfl (hf.waiting hoffered) with ⟨hdirect, hthread, hread⟩
    exact ⟨hf.direct.trans hdirect, hthread, hread⟩
  directed := by
    rintro j ⟨⟩ hdirect
    exact h.directed i rfl (hf.direct.symm.trans hdirect)
  settled := fun hsome => (h.settled hsome).follows hf
  read_le := h.read_le
  thread := by
    have hthread := h.thread
    cases fetching with
    | «over» => trivial
    | reaching => exact hthread
    | asking => exact hthread
    | opened data =>
        refine ⟨hthread.1, hthread.2.1, ?_⟩
        rintro j ⟨⟩
        exact hf.direct.trans (hthread.2.2 i rfl)
    | holding data =>
        refine ⟨hthread.1, hthread.2.1, ?_⟩
        rintro j ⟨⟩
        rcases hthread.2.2 i rfl with ⟨hdirect, hcount⟩
        refine ⟨hf.direct.trans hdirect, fun hm => ?_⟩
        rw [hreceived]
        exact hcount (hmoving hm)
    | reading =>
        refine ⟨hthread.1, ?_⟩
        rintro j ⟨⟩
        rcases hthread.2 i rfl with ⟨hdirect, hcount⟩
        refine ⟨hf.direct.trans hdirect, fun hm => ?_⟩
        rw [hreceived]
        exact hcount (hmoving hm)

/-- A record that is gone. -/
theorem ReceiverSide.gone {stream relayed : List Bytes} {read : Nat} {fetching : Fetching}
    {y : Option Incoming} (h : ReceiverSide P offer stream relayed read fetching y) :
    ReceiverSide P offer stream relayed read fetching none where
  takes := absent
  owed := by rintro i received state ⟨⟩
  waiting := absent
  directed := absent
  settled := fun hsome => ⟨(h.settled hsome).1, absent⟩
  read_le := h.read_le
  thread := by
    have hthread := h.thread
    cases fetching with
    | «over» => trivial
    | reaching => exact hthread
    | asking => exact hthread
    | opened data => exact ⟨hthread.1, hthread.2.1, absent⟩
    | holding data => exact ⟨hthread.1, hthread.2.1, absent⟩
    | reading => exact ⟨hthread.1, absent⟩

/-- The sender writes to the stream. -/
theorem ReceiverSide.stream_append {stream relayed : List Bytes} {read : Nat}
    {fetching : Fetching} {y : Option Incoming}
    (h : ReceiverSide P offer stream relayed read fetching y) (more : List Bytes) :
    ReceiverSide P offer (stream ++ more) relayed read fetching y where
  takes := by
    intro i hi
    have htakes := h.takes i hi
    unfold source at htakes ⊢
    split at htakes
    · rename_i hdirect
      rw [if_pos hdirect]
      exact htakes.append more
    · rename_i hdirect
      rw [if_neg hdirect]
      exact htakes
  owed := h.owed
  waiting := h.waiting
  directed := h.directed
  settled := h.settled
  read_le := by
    rw [List.length_append]
    exact Nat.le_add_right_of_le h.read_le
  thread := by
    have hread := h.read_le
    have hthread := h.thread
    cases fetching with
    | «over» => trivial
    | reaching => exact hthread
    | asking => exact hthread
    | opened data =>
        refine ⟨hthread.1, ?_, hthread.2.2⟩
        rw [List.getElem?_append_left (by have := hthread.1; omega)]
        exact hthread.2.1
    | holding data =>
        refine ⟨hthread.1, ?_, hthread.2.2⟩
        rw [List.getElem?_append_left (by have := hthread.1; omega)]
        exact hthread.2.1
    | reading => exact hthread

/-- The sender puts pieces into the queue to the relay, which it does for a receiver that has
answered. -/
theorem ReceiverSide.relayed_append {stream relayed : List Bytes} {read : Nat}
    {fetching : Fetching} {y : Option Incoming}
    (h : ReceiverSide P offer stream relayed read fetching y) {more : List Bytes}
    (hmore : more ≠ [] → Settled fetching y) :
    ReceiverSide P offer stream (relayed ++ more) read fetching y where
  takes := by
    intro i hi
    have htakes := h.takes i hi
    unfold source at htakes ⊢
    split at htakes
    · rename_i hdirect
      rw [if_pos hdirect]
      exact htakes
    · rename_i hdirect
      rw [if_neg hdirect]
      exact htakes.append more
  owed := by
    intro i received state hi howed
    rcases h.owed i received state hi howed with ⟨hreached, hdone⟩
    exact ⟨hreached.append more, hdone⟩
  waiting := h.waiting
  directed := h.directed
  settled := by
    intro hsome
    cases relayed with
    | nil => exact hmore hsome
    | cons first rest => exact h.settled (List.cons_ne_nil first rest)
  read_le := h.read_le
  thread := h.thread

/-- What is on its way to the sender about the file is so. -/
def Truthful (P : Primitives) (offer : Offer) (id : OfferId) (stream relayed : List Bytes)
    (fetching : Fetching) (y : Option Incoming) (out : List LocalEvent) : Prop :=
  ∀ m ∈ out,
    (∀ a, ackOf? m = some a → a.offerId = id →
      Reached relayed y a.received.toNat ∧
        (a.state = .done → Kept P offer stream relayed y)) ∧
    ∀ a, answerOf? m = some a → a.offerId = id → Settled fetching y

/-- An event accepted the offer of a record that has a direct way. -/
def Starts (P : Primitives) (s : State) (x y : Option Incoming) : Prop :=
  ∃ i j link, x = some i ∧ i.stage = .offered ∧ y = some j ∧ j.stage = .moving 0 ∧
    s.link = some link ∧ (State.directWay P link i.offer).isSome = true

theorem starts_iff {before after : State} :
    starts P id before after = true ↔
      Starts P before (before.receiving.get? id) (after.receiving.get? id) := by
  simp only [starts, Starts, Option.any_eq_true, Bool.and_eq_true, decide_eq_true_eq]
  constructor
  · rintro ⟨i, hi, ⟨hoffered, j, hj, hmoving⟩, link, hlink, hway⟩
    exact ⟨i, j, link, hi, hoffered, hj, hmoving, hlink, hway⟩
  · rintro ⟨i, j, link, hi, hoffered, hj, hmoving, hlink, hway⟩
    exact ⟨i, hi, ⟨hoffered, j, hj, hmoving⟩, link, hlink, hway⟩

/-- The thread after an event: the one that has just been started, or the same. -/
def Thread (P : Primitives) (s : State) (x y : Option Incoming) (fetching fetching' : Fetching) :
    Prop :=
  Starts P s x y ∧ fetching' = .reaching ∨ ¬ Starts P s x y ∧ fetching' = fetching

theorem Thread.same {s : State} {x y : Option Incoming} {fetching fetching' : Fetching}
    (h : Thread P s x y fetching fetching')
    (hstage : ∀ i j, x = some i → y = some j → i.stage = .offered → j.stage ≠ .moving 0) :
    fetching' = fetching := by
  rcases h with ⟨⟨i, j, link, hx, hoffered, hy, hmoving, -⟩, -⟩ | ⟨-, hsame⟩
  · exact absurd hmoving (hstage i j hx hy hoffered)
  · exact hsame

theorem Thread.settled {s : State} {x y : Option Incoming} {fetching fetching' : Fetching}
    (h : Thread P s x y fetching fetching') (hsettled : Settled fetching x)
    (hfollows : ∀ i', y = some i' → ∃ i, x = some i ∧ Follows i i') : Settled fetching' y := by
  have hsame : fetching' = fetching := by
    apply h.same
    intro i j hx _ hoffered
    exact absurd hoffered (hsettled.2 i hx).2
  rw [hsame]
  cases y with
  | none => exact ⟨hsettled.1, absent⟩
  | some i' =>
      rcases hfollows i' rfl with ⟨i, hx, hf⟩
      rw [hx] at hsettled
      exact hsettled.follows hf

theorem ofNat_toNat_le (n : Nat) : (UInt32.ofNat n).toNat ≤ n := by
  rw [UInt32.toNat_ofNat']
  exact Nat.mod_le _ _

theorem answerOf?_ackMessage (i : Incoming) (received : Nat) (state : AckState) :
    answerOf? (ackMessage i received state) = none := rfl

/-- One acknowledgement of what a record has. -/
theorem truthful_ack {stream relayed : List Bytes} {fetching : Fetching} {y : Option Incoming}
    {i : Incoming} {received : Nat} {state : AckState} (hreached : Reached relayed y received)
    (hdone : state = .done → Kept P offer stream relayed y) :
    Truthful P offer id stream relayed fetching y [ackMessage i received state] := by
  intro m hm
  rw [List.mem_singleton] at hm
  rw [hm]
  refine ⟨?_, ?_⟩
  · intro a ha _
    rw [ackOf?_ackMessage] at ha
    cases ha
    exact ⟨hreached.of_le (ofNat_toNat_le received), hdone⟩
  · intro a ha
    rw [answerOf?_ackMessage] at ha
    cases ha

theorem truthful_nil {stream relayed : List Bytes} {fetching : Fetching} {y : Option Incoming} :
    Truthful P offer id stream relayed fetching y [] := by
  rintro m ⟨⟩

theorem truthful_answer {stream relayed : List Bytes} {fetching : Fetching} {y : Option Incoming}
    (hsettled : Settled fetching y) {out : List LocalEvent}
    (hout : ∀ m ∈ out, ∃ link accepted to_, IsAnswer P link id accepted to_ m) :
    Truthful P offer id stream relayed fetching y out := by
  intro m hm
  rcases hout m hm with ⟨link, accepted, to_, replyTo, body, -, -, rfl⟩
  exact ⟨nofun, fun _ _ _ => hsettled⟩

/-- An acknowledgement that was owed goes out, or stays owed. -/
theorem ReceiverSide.owes {stream relayed : List Bytes} {read : Nat} {fetching : Fetching}
    {i i' : Incoming} (h : ReceiverSide P offer stream relayed read fetching (some i))
    (h' : ReceiverSide P offer stream relayed read fetching (some i')) (hf : Follows i i')
    {owed : Option (Nat × AckState)} {replies : List LocalEvent} (howes : i.Owes owed replies) :
    Truthful P offer id stream relayed fetching (some i') replies := by
  rcases howes with ⟨-, rfl⟩ | ⟨received, state, howed, -, rfl⟩
  · exact truthful_nil
  · rcases h.owed i received state rfl howed with ⟨hreached, hdone⟩
    exact truthful_ack (hreached.follows hf) fun hstate => h'.whole (hf.kept (hdone hstate))

theorem owes_kept {i : Incoming} {owed : Option (Nat × AckState)} {replies : List LocalEvent}
    (howes : i.Owes owed replies) {ack : Nat × AckState} (h : owed = some ack) :
    i.owedAck = some ack := by
  rcases howes with ⟨hsame, -⟩ | ⟨received, state, -, hnone, -⟩
  · exact hsame.symm.trans h
  · rw [hnone] at h
    cases h

theorem not_kept_of_unfinished {i : Incoming} (h : i.stage.finished = false) : ¬ IsKept i := by
  rintro ⟨path, hdone⟩
  rw [hdone] at h
  cases h

theorem took_direct {i i' : Incoming} {data : Bytes} {now : Instant}
    {disk disk' : Disk} {ended : Option AckState} (h : Took P i data now disk i' disk' ended) :
    i'.direct = i.direct := by
  cases h with
  | more | kept | thrown => rfl

theorem took_past {i i' : Incoming} {data : Bytes} {now : Instant}
    {disk disk' : Disk} {ended : Option AckState} (h : Took P i data now disk i' disk' ended) :
    i'.stage ≠ .offered := by
  cases h with
  | more | kept | thrown => exact nofun

/-- What an event that offers nothing and takes nothing off the stream leaves of the receiver's side,
when a piece it brings is one of those put on their way. -/
theorem ReceiverSide.receives {stream relayed : List Bytes} {read : Nat}
    {fetching fetching' : Fetching} {s : State} {disk : Disk} {e : Event} {x y : Option Incoming}
    {replies : List LocalEvent} (h : ReceiverSide P offer stream relayed read fetching x)
    (hr : Receives P s disk e id x y replies) (hfits : offer.chunkCount < 2 ^ 32)
    (hasked : ∀ room, e = .answerThroughRelay id room → fetching = .over)
    (hbegins : ∀ now, e ≠ .directReceiving id now)
    (hdirect : ∀ data io now, e ≠ .directPiece id data io now)
    (hoffer : ∀ body d f, e = .message .fileOffer body d → SignedOffer P s body f →
      f.offerId ≠ id)
    (hpiece : ∀ body d c, e = .message .fileChunk body d → Chunk.decode body = .ok c →
      c.offerId = id → relayed[c.index.toNat]? = some c.data)
    (hthread : Thread P s x y fetching fetching') :
    ReceiverSide P offer stream relayed read fetching' y ∧
      Truthful P offer id stream relayed fetching' y replies ∧
      ∀ i', y = some i' → ∃ i, x = some i ∧ Follows i i' := by
  cases hr with
  | absent =>
      have hsame := hthread.same (by rintro i j ⟨⟩)
      rw [hsame]
      exact ⟨h, truthful_nil, absent⟩
  | offered he hsigned hid =>
      exact absurd hid (hoffer _ _ _ he hsigned)
  | cleared he hover =>
      have hsame := hthread.same (by rintro i j hx ⟨⟩)
      rw [hsame]
      exact ⟨h.gone, truthful_nil, absent⟩
  | @kept i goneSince owed replies howes =>
      have hsame := hthread.same (by
        rintro i j ⟨⟩ ⟨⟩ hoffered hmoving
        exact nomatch hoffered.symm.trans hmoving)
      rw [hsame]
      have hf : Follows i { i with goneSince := goneSince, owedAck := owed } :=
        ⟨le_refl _, rfl, fun h => h, fun h => h⟩
      have hside := h.same hf rfl ((h.takes i rfl).of_eq rfl rfl rfl rfl rfl) (fun h => h)
        fun _ => owes_kept howes
      refine ⟨hside, h.owes hside hf howes, ?_⟩
      rintro i' ⟨⟩
      exact ⟨i, rfl, hf⟩
  | @stopped i stage owed replies hstops hlive hstopped hpart howes =>
      have hf : Follows i { i with part := none, stage := stage, owedAck := owed } := {
        received := le_refl _
        direct := rfl
        waiting := fun hoffered => absurd hoffered hstopped.not_offered
        kept := fun hkept => absurd hkept (not_kept_of_unfinished hlive) }
      have hsame := hthread.same (by
        rintro _ j ⟨⟩ ⟨⟩ - hmoving
        have hnot : stage.isMoving = false := hstopped.isMoving
        rw [show stage = .moving 0 from hmoving] at hnot
        cases hnot)
      rw [hsame]
      have hside := h.same hf rfl ((h.takes i rfl).stop rfl rfl hstopped) (by
        intro hmoving
        rw [show stage.isMoving = false from hstopped.isMoving] at hmoving
        cases hmoving) fun _ => owes_kept howes
      refine ⟨hside, h.owes hside hf howes, ?_⟩
      rintro i' ⟨⟩
      exact ⟨i, rfl, hf⟩
  | @offline i d why goneSince owed replies he hoffered howes =>
      have hlive : i.stage.finished = false := by
        rw [hoffered]
        rfl
      have hf : Follows i { i with stage := .failed why, goneSince := goneSince, owedAck := owed } := {
        received := le_refl _
        direct := rfl
        waiting := nofun
        kept := fun hkept => absurd hkept (not_kept_of_unfinished hlive) }
      have hsame := hthread.same (by rintro _ j ⟨⟩ ⟨⟩ - ⟨⟩)
      rw [hsame]
      have hside := h.same hf rfl ((h.takes i rfl).stop rfl rfl (Stage.stopped_failed why)) nofun
        fun _ => owes_kept howes
      refine ⟨hside, h.owes hside hf howes, ?_⟩
      rintro i' ⟨⟩
      exact ⟨i, rfl, hf⟩
  | @declined i room replies he hoffered hanswers =>
      rcases h.waiting i rfl hoffered with ⟨hdirect, hidle, -⟩
      have hlive : i.stage.finished = false := by
        rw [hoffered]
        rfl
      have hf : Follows i { i with stage := .declined } := {
        received := le_refl _
        direct := rfl
        waiting := nofun
        kept := fun hkept => absurd hkept (not_kept_of_unfinished hlive) }
      have hsame := hthread.same (by rintro _ j ⟨⟩ ⟨⟩ - ⟨⟩)
      rw [hsame]
      have hside := h.same hf rfl ((h.takes i rfl).stop rfl rfl (.inl rfl)) nofun fun _ ho => ho
      refine ⟨hside, truthful_answer ⟨hidle, ?_⟩ ?_, ?_⟩
      · rintro j ⟨⟩
        exact ⟨hdirect, nofun⟩
      · intro m hm
        rcases hanswers m hm with ⟨link, hanswer⟩
        exact ⟨link, false, _, hanswer⟩
      · rintro i' ⟨⟩
        exact ⟨i, rfl, hf⟩
  | @accepted i finalPath replace d link replies haccepts hoffered hlink hanswered =>
      rcases h.waiting i rfl hoffered with ⟨hdirect, hidle, hread⟩
      have htakes := h.takes i rfl
      have hnone : i.received = 0 := htakes.fresh hoffered
      have hlive : i.stage.finished = false := by
        rw [hoffered]
        rfl
      generalize hmade : ({ i with
          part := some ⟨[], partPathFor finalPath, finalPath⟩
          replace := replace
          stage := .moving 0
          moved := d.now } : Incoming) = i' at hthread ⊢
      have hf : Follows i i' := by
        rw [← hmade]
        exact {
          received := le_refl _
          direct := rfl
          waiting := nofun
          kept := fun hkept => absurd hkept (not_kept_of_unfinished hlive) }
      have htakes' : i'.Takes P offer (source i stream relayed) := by
        rw [← hmade]
        refine ⟨htakes.offer_eq, htakes.came, htakes.count, nofun, ?_, fun _ => htakes.fed hlive,
          nofun⟩
        intro n hn
        cases hn
        exact hnone.symm
      have howed : i'.owedAck = i.owedAck := by rw [← hmade]
      have hpast : i'.stage = .moving 0 := by rw [← hmade]
      have hreceived : i'.received = i.received := by rw [← hmade]
      -- no piece has gone through the relay while the offer waits
      have hempty : relayed = [] := by
        by_contra hsome
        exact ((h.settled hsome).2 i rfl).2 hoffered
      have hfollows : ∀ j, some i' = some j → ∃ k, some i = some k ∧ Follows k j := by
        rintro j ⟨⟩
        exact ⟨i, rfl, hf⟩
      have hthread' : fetching' = .reaching ∧ replies = [] ∨
          fetching' = .over ∧ ∀ m ∈ replies, ∃ link accepted to_, IsAnswer P link id accepted to_ m := by
        rcases hanswered with ⟨hway, hnothing⟩ | ⟨hway, -, m, hm, hanswer⟩
        · rcases hthread with ⟨-, hreach⟩ | ⟨hnot, -⟩
          · exact .inl ⟨hreach, hnothing⟩
          · exact absurd ⟨i, i', link, rfl, hoffered, rfl, hpast, hlink, hway⟩ hnot
        · rcases hthread with ⟨⟨j, k, other, hj, -, -, -, hother, hsome⟩, -⟩ | ⟨-, hsame⟩
          · cases hj
            rw [hlink] at hother
            cases hother
            rw [hway] at hsome
            cases hsome
          · refine .inr ⟨hsame.trans hidle, ?_⟩
            rw [hm]
            intro m' hm'
            rw [List.mem_singleton] at hm'
            rw [hm']
            exact ⟨link, true, _, hanswer⟩
      have hside : ReceiverSide P offer stream relayed read fetching' (some i') := {
        takes := by
          rintro j ⟨⟩
          rw [source, hf.direct]
          exact htakes'
        owed := by
          rintro j received state ⟨⟩ hj
          rw [howed] at hj
          rcases h.owed i received state rfl hj with ⟨hreached, hdone⟩
          exact ⟨hreached.follows hf, fun hstate => hf.kept (hdone hstate)⟩
        waiting := by
          rintro j ⟨⟩ hj
          rw [hpast] at hj
          cases hj
        directed := by
          rintro j ⟨⟩ hj
          rw [hf.direct, hdirect] at hj
          cases hj
        settled := fun hsome => absurd hempty hsome
        read_le := h.read_le
        thread := by
          rcases hthread' with ⟨hreach, -⟩ | ⟨hover, -⟩
          · rw [hreach]
            exact hread
          · rw [hover]
            trivial }
      refine ⟨hside, ?_, hfollows⟩
      rcases hthread' with ⟨-, hnothing⟩ | ⟨hover, hanswers⟩
      · rw [hnothing]
        exact truthful_nil
      · refine truthful_answer ⟨hover, ?_⟩ hanswers
        rintro j ⟨⟩
        refine ⟨hf.direct.trans hdirect, ?_⟩
        rw [hpast]
        exact nofun
  | @asked i room link m he hmoving hrelay hlink hlocal hanswer =>
      have hsame := hthread.same (by
        rintro j _ ⟨⟩ - hoffered
        cases hoffered.symm.trans hmoving)
      rw [hsame]
      have hsettled : Settled fetching (some i) := by
        refine ⟨hasked room he, ?_⟩
        rintro j ⟨⟩
        refine ⟨hrelay, ?_⟩
        rw [hmoving]
        exact nofun
      refine ⟨h, truthful_answer hsettled ?_, ?_⟩
      · intro m' hm'
        rw [List.mem_singleton] at hm'
        rw [hm']
        exact ⟨link, true, _, hanswer⟩
      · rintro j ⟨⟩
        exact ⟨i, rfl, Follows.refl i⟩
  | @taken i i' body d chunk ended owed replies he hnext htook hreply =>
      rcases hnext with ⟨hdecode, hid, hmoving, hdirect, hindex⟩
      have hdata := hpiece body d chunk he hdecode hid
      rw [hindex] at hdata
      have hlt := (List.getElem?_eq_some_iff.mp hdata).1
      have hsome : relayed ≠ [] := List.ne_nil_of_length_pos (Nat.zero_lt_of_lt hlt)
      have hsettled := h.settled hsome
      have hsource : source i stream relayed = relayed := by
        rw [source, hdirect]
        rfl
      have htakes := h.takes i rfl
      rw [hsource] at htakes
      rcases htook.takes htakes hmoving hdata hfits with ⟨htakes', hcount, hdone⟩
      have hdirect' : i'.direct = false := (took_direct htook).trans hdirect
      have hf : Follows i { i' with owedAck := owed } := {
        received := by
          change i.received ≤ i'.received
          omega
        direct := by
          change i'.direct = i.direct
          exact took_direct htook
        waiting := fun hoffered => (took_past htook hoffered).elim
        kept := fun hkept => absurd hkept
          (not_kept_of_unfinished (Stage.unfinished_of_moving hmoving)) }
      have hsame := hthread.same (by
        rintro j k ⟨⟩ - hoffered
        rw [hoffered] at hmoving
        cases hmoving)
      rw [hsame]
      have hreached : Reached relayed (some { i' with owedAck := owed }) i'.received := by
        refine ⟨by omega, ?_⟩
        rintro j ⟨⟩
        exact le_refl _
      have hkept : ended.getD .receiving = .done → IsKept { i' with owedAck := owed } := by
        intro hstate
        cases ended with
        | none => cases hstate
        | some state =>
            cases hstate
            exact hdone rfl
      have hside : ReceiverSide P offer stream relayed read fetching
          (some { i' with owedAck := owed }) := {
        takes := by
          rintro j ⟨⟩
          have hsource' : source { i' with owedAck := owed } stream relayed = relayed := by
            rw [source]
            exact if_neg (by rw [hdirect']; exact Bool.false_ne_true)
          rw [hsource']
          exact htakes'.of_eq rfl rfl rfl rfl rfl
        owed := by
          rintro j received state ⟨⟩ howed
          rcases hreply with ⟨-, hnone, -⟩ | ⟨-, hsome, -⟩
          · change owed = some (received, state) at howed
            rw [hnone] at howed
            cases howed
          · change owed = some (received, state) at howed
            rw [hsome] at howed
            cases howed
            exact ⟨hreached, hkept⟩
        waiting := by
          rintro j ⟨⟩ hoffered
          exact (took_past htook hoffered).elim
        directed := by
          rintro j ⟨⟩ hj
          rw [show i'.direct = true from hj] at hdirect'
          cases hdirect'
        settled := fun _ => hsettled.follows hf
        read_le := h.read_le
        thread := by
          rw [hsettled.1]
          trivial }
      refine ⟨hside, ?_, ?_⟩
      · rcases hreply with ⟨-, -, hout⟩ | ⟨-, -, hout⟩
        · rw [hout]
          exact truthful_ack hreached fun hstate => hside.whole (hkept hstate)
        · rw [hout]
          exact truthful_nil
      · rintro j ⟨⟩
        exact ⟨i, rfl, hf⟩
  | directed he => exact absurd he (hbegins _)
  | direct he => exact absurd he (hdirect _ _ _)

/-! ## The sender -/

/-- How far the thread has got with the stream. -/
def ServingAt (offer : Offer) (count : Nat) : Serving → Prop
  | .over => count ≤ totalPieces offer
  | .listening => count = 0
  | .sending f index => f = offer ∧ count = index ∧ index < totalPieces offer
  | .written f index => f = offer ∧ count = index + 1 ∧ index < totalPieces offer
  | .confirming f => f = offer ∧ count = totalPieces offer

structure SenderSide (P : Primitives) (offer : Offer) (stream relayed : List Bytes)
    (fetching : Fetching) (y : Option Incoming) (x : Option Outgoing) : Prop where
  offer_eq : ∀ o, x = some o → o.offer = offer
  waiting : ∀ o, x = some o → o.stage = .offered → o.direct = false ∧ o.next = 0
  addressed : ∀ o, x = some o → o.Addressed
  settled : ∀ o, x = some o → o.to_ ≠ none → Settled fetching y
  relays : ∀ o, x = some o → o.direct = false →
    o.next = relayed.length ∧ Reached relayed y o.acked
  streams : ∀ o, x = some o → o.direct = true →
    relayed = [] ∧ o.next ≤ stream.length ∧ o.acked ≤ stream.length
  done : ∀ o path, x = some o → o.stage = .done path → Kept P offer stream relayed y
  few : relayed.length ≤ totalPieces offer

/-- What the receiver says, and what the thread has written, in what an event brings. -/
structure Heeds (P : Primitives) (offer : Offer) (stream relayed : List Bytes)
    (fetching : Fetching) (y : Option Incoming) (s : State) (id : OfferId) (e : Event) :
    Prop where
  offers : ¬ e.Offers id
  acks : ∀ body d a, e = .message .fileAck body d → Ack.decode body = .ok a → a.offerId = id →
    Reached relayed y a.received.toNat ∧ (a.state = .done → Kept P offer stream relayed y)
  answers : ∀ body d a, e = .message .fileAnswer body d → s.readAnswer P body = some a →
    a.offerId = id → Settled fetching y
  progress : ∀ count now, e = .directProgress id count now → count ≤ stream.length
  finished : e = .directFinished id .done → Kept P offer stream relayed y

/-- The pieces of a queue stand in the log of all pieces where they say. -/
def Logged (id : OfferId) (relayed : List Bytes) (out : List LocalEvent) : Prop :=
  ∀ m ∈ out, ∀ c, pieceOf? m = some c → c.offerId = id →
    relayed[c.index.toNat]? = some c.data

/-- What the messages of a pump carry. -/
theorem pumped_data {draws : Nat → PieceDraw} {o o' : Outgoing} {out : List LocalEvent}
    (h : Pumped draws o o' out) :
    List.Forall₂ (fun i data => ∃ m ∈ out, Piece o draws i m ∧ dataOf? m = some data)
      (List.range' o.next (o'.next - o.next))
      (out.filterMap dataOf?) := by
  have hsent := h.sent
  generalize List.range' o.next (o'.next - o.next) = indices at hsent
  clear h
  induction hsent with
  | nil => exact List.Forall₂.nil
  | @cons i m indices out hm _ ih =>
      rcases hm.pieceOf with ⟨data, -, hpiece⟩
      have hdata : dataOf? m = some data := by
        rw [dataOf?, hpiece]
        rfl
      rw [List.filterMap_cons_some hdata]
      refine List.Forall₂.cons ⟨m, List.mem_cons_self, hm, hdata⟩ (ih.imp ?_)
      rintro j other ⟨m', hm', hrest⟩
      exact ⟨m', List.mem_cons_of_mem m hm', hrest⟩

/-- A pump that goes on where the log ends keeps the log in step with its record. -/
theorem pumped_logged {draws : Nat → PieceDraw} {o o' : Outgoing} {out : List LocalEvent}
    {relayed : List Bytes} (h : Pumped draws o o' out) (hnext : o.next = relayed.length)
    (hfew : relayed.length ≤ totalPieces o.offer) :
    o'.next = (relayed ++ out.filterMap dataOf?).length ∧
      o'.next ≤ totalPieces o.offer ∧
      Logged o.offer.offerId (relayed ++ out.filterMap dataOf?) out := by
  have hdata := pumped_data h
  have hlen := hdata.length_eq
  rw [List.length_range'] at hlen
  have hgrown := h.next
  have hend : o'.next ≤ totalPieces o.offer := by
    rcases Nat.lt_or_ge o.next o'.next with hlt | hge
    · have hlast := (h.window (o'.next - 1) (by omega) (by omega)).1
      omega
    · omega
  refine ⟨?_, hend, ?_⟩
  · rw [List.length_append]
    omega
  · intro m hm c hc _
    rcases List.mem_iff_getElem.mp hm with ⟨k, hk, hat⟩
    have hsent := h.sent
    have hcount := hsent.length_eq
    rw [List.length_range'] at hcount
    have hpiece := (List.forall₂_iff_get.mp hsent).2 k (by rw [List.length_range']; omega) hk
    rw [List.get_eq_getElem, List.get_eq_getElem, hat, List.getElem_range', Nat.one_mul] at hpiece
    rcases hpiece.pieceOf with ⟨data, hdraw, hread⟩
    rw [hread] at hc
    cases hc
    -- the number of a piece fits the counter on the wire
    have hsmall : o.next + k < 2 ^ 32 := by
      have hbound : totalPieces o.offer ≤ U32_MAX := min_le_right _ _
      have hmax : U32_MAX < 2 ^ 32 := by decide
      omega
    change (relayed ++ _)[(UInt32.ofNat (o.next + k)).toNat]? = some data
    rw [UInt32.toNat_ofNat_of_lt' hsmall, hnext, List.getElem?_append_right (Nat.le_add_right _ _),
      Nat.add_sub_cancel_left]
    have hkd : k < (out.filterMap dataOf?).length := by omega
    rcases (List.forall₂_iff_get.mp hdata).2 k (by rw [List.length_range']; omega) hkd with
      ⟨m', -, hpiece', hdata'⟩
    rw [List.get_eq_getElem, List.getElem_range', Nat.one_mul] at hpiece'
    rcases hpiece'.pieceOf with ⟨data', hdraw', hread'⟩
    rw [dataOf?, hread', List.get_eq_getElem] at hdata'
    rw [List.getElem?_eq_getElem hkd, ← hdata']
    rw [hdraw] at hdraw'
    cases hdraw'
    rfl

/-- A record that names no connection sends nothing. -/
theorem pumped_idle {draws : Nat → PieceDraw} {o o' : Outgoing} {out : List LocalEvent}
    (h : Pumped draws o o' out) (hto : o.to_ = none) : out = [] ∧ o'.next = o.next := by
  have hout : out = [] := by
    rw [List.eq_nil_iff_forall_not_mem]
    intro m hm
    rcases h.mem hm with ⟨i, -, -, to_, data, body, hsome, -⟩
    rw [hto] at hsome
    cases hsome
  have hcount := h.sent.length_eq
  have hgrown := h.next
  rw [List.length_range', hout, List.length_nil] at hcount
  exact ⟨hout, by omega⟩

theorem Kept.append {stream relayed : List Bytes} {y : Option Incoming}
    (h : Kept P offer stream relayed y) (more more' : List Bytes) :
    Kept P offer (stream ++ more) (relayed ++ more') y :=
  ⟨h.1.imp (fun hw => hw.append more) fun hw => hw.append more', h.2⟩

theorem Kept.relayed_append {stream relayed : List Bytes} {y : Option Incoming}
    (h : Kept P offer stream relayed y) (more : List Bytes) :
    Kept P offer stream (relayed ++ more) y :=
  ⟨h.1.imp_right fun hw => hw.append more, h.2⟩

/-- A record that sends nothing. -/
theorem SenderSide.same {stream relayed : List Bytes} {fetching : Fetching}
    {y : Option Incoming} {o o' : Outgoing}
    (h : SenderSide P offer stream relayed fetching y (some o)) (hoffer : o'.offer = o.offer)
    (hto : o'.to_ = o.to_) (hdirect : o'.direct = o.direct) (hnext : o'.next = o.next)
    (hacked : o'.acked = o.acked) (hoffered : o'.stage = .offered → o.stage = .offered)
    (hdone : ∀ path, o'.stage = .done path → Kept P offer stream relayed y) :
    SenderSide P offer stream relayed fetching y (some o') where
  offer_eq := by
    rintro _ ⟨⟩
    exact hoffer.trans (h.offer_eq o rfl)
  waiting := by
    rintro _ ⟨⟩ hstage
    rw [hdirect, hnext]
    exact h.waiting o rfl (hoffered hstage)
  addressed := by
    rintro _ ⟨⟩ hsome
    rw [hto] at hsome
    rcases h.addressed o rfl hsome with ⟨hpast, hrelay⟩
    exact ⟨fun hstage => hpast (hoffered hstage), hdirect.trans hrelay⟩
  settled := by
    rintro _ ⟨⟩ hsome
    rw [hto] at hsome
    exact h.settled o rfl hsome
  relays := by
    rintro _ ⟨⟩ hrelay
    rw [hnext, hacked]
    exact h.relays o rfl (hdirect.symm.trans hrelay)
  streams := by
    rintro _ ⟨⟩ hstream
    rw [hnext, hacked]
    exact h.streams o rfl (hdirect.symm.trans hstream)
  done := by
    rintro _ path ⟨⟩ hstage
    exact hdone path hstage
  few := h.few

/-- A record that an acknowledgement reached. -/
theorem SenderSide.acknowledged {stream relayed : List Bytes} {fetching : Fetching}
    {y : Option Incoming} {o : Outgoing}
    (h : SenderSide P offer stream relayed fetching y (some o)) {n : Nat}
    (hreached : Reached relayed y n) (now : Instant) (stage : Stage) (hpast : stage ≠ .offered)
    (hdone : ∀ path, stage = .done path → Kept P offer stream relayed y) :
    SenderSide P offer stream relayed fetching y
      (some { o with acked := max o.acked n, moved := now, stage := stage }) where
  offer_eq := by
    rintro _ ⟨⟩
    exact h.offer_eq o rfl
  waiting := by
    rintro _ ⟨⟩ hstage
    exact absurd hstage hpast
  addressed := by
    rintro _ ⟨⟩ hsome
    exact ⟨hpast, (h.addressed o rfl hsome).2⟩
  settled := by
    rintro _ ⟨⟩ hsome
    exact h.settled o rfl hsome
  relays := by
    rintro _ ⟨⟩ hrelay
    rcases h.relays o rfl hrelay with ⟨hnext, hacked⟩
    exact ⟨hnext, hacked.max hreached⟩
  streams := by
    rintro _ ⟨⟩ hstream
    rcases h.streams o rfl hstream with ⟨hempty, hnext, hacked⟩
    -- nothing has gone through the relay, so nothing was acknowledged there
    have hnone : n ≤ 0 := by
      have hbound := hreached.1
      rwa [hempty] at hbound
    exact ⟨hempty, hnext, max_le hacked (hnone.trans (Nat.zero_le _))⟩
  done := by
    rintro _ path ⟨⟩ hstage
    exact hdone path hstage
  few := h.few

/-- A pump on a record that is on its way. -/
theorem pumped_side {stream relayed : List Bytes} {fetching : Fetching} {y : Option Incoming}
    {draws : Nat → PieceDraw} {o o' : Outgoing} {out : List LocalEvent}
    (h : SenderSide P offer stream relayed fetching y (some o)) (hpump : Pumped draws o o' out)
    (hid : offer.offerId = id) (hmoving : o.stage.isMoving = true) :
    SenderSide P offer stream (relayed ++ out.filterMap dataOf?) fetching y (some o') ∧
      Logged id (relayed ++ out.filterMap dataOf?) out ∧
      (out.filterMap dataOf? ≠ [] → Settled fetching y) := by
  have hpast : o'.stage ≠ .offered := by
    intro hstage
    rcases hpump.stage with hsame | ⟨why, hfailed⟩
    · rw [← hsame, hstage] at hmoving
      cases hmoving
    · cases hstage.symm.trans hfailed
  have hundone : ∀ path, o'.stage ≠ .done path := by
    intro path hstage
    rcases hpump.stage with hsame | ⟨why, hfailed⟩
    · rw [← hsame, hstage] at hmoving
      cases hmoving
    · cases hstage.symm.trans hfailed
  cases hto : o.to_ with
  | none =>
      rcases pumped_idle hpump hto with ⟨rfl, hnext⟩
      rw [List.filterMap_nil, List.append_nil]
      refine ⟨?_, by rintro m ⟨⟩, fun hne => absurd rfl hne⟩
      exact h.same hpump.offer_eq hpump.to_eq hpump.direct_eq hnext hpump.acked_eq
        (fun hstage => absurd hstage hpast) fun path hstage => absurd hstage (hundone path)
  | some conn =>
      have hsome : o.to_ ≠ none := by
        rw [hto]
        exact nofun
      have hrelay := (h.addressed o rfl hsome).2
      have hsettled := h.settled o rfl hsome
      rcases h.relays o rfl hrelay with ⟨hnext, hreached⟩
      have hoffer := h.offer_eq o rfl
      rcases pumped_logged hpump hnext (hoffer ▸ h.few) with ⟨hlen, hend, hlogged⟩
      rw [hoffer] at hend hlogged
      rw [hid] at hlogged
      refine ⟨?_, hlogged, fun _ => hsettled⟩
      exact {
        offer_eq := by
          rintro _ ⟨⟩
          exact hpump.offer_eq.trans hoffer
        waiting := by
          rintro _ ⟨⟩ hstage
          exact absurd hstage hpast
        addressed := by
          rintro _ ⟨⟩ _
          exact ⟨hpast, hpump.direct_eq.trans hrelay⟩
        settled := fun _ _ _ => hsettled
        relays := by
          rintro _ ⟨⟩ _
          rw [hpump.acked_eq]
          exact ⟨hlen, hreached.append _⟩
        streams := by
          rintro _ ⟨⟩ hstream
          rw [hpump.direct_eq, hrelay] at hstream
          cases hstream
        done := by
          rintro _ path ⟨⟩ hstage
          exact absurd hstage (hundone path)
        few := hlen.ge.trans hend }

/-- What an event leaves of the sender's side, and the pieces it puts into the queue. -/
theorem SenderSide.sends {stream relayed : List Bytes} {fetching : Fetching}
    {y : Option Incoming} {s : State} {e : Event} {x x' : Option Outgoing}
    {out : List LocalEvent} (h : SenderSide P offer stream relayed fetching y x)
    (hs : Sends P s e id x x' out) (hid : offer.offerId = id)
    (hheeds : Heeds P offer stream relayed fetching y s id e) :
    SenderSide P offer stream (relayed ++ out.filterMap dataOf?) fetching y x' ∧
      Logged id (relayed ++ out.filterMap dataOf?) out ∧
      (out.filterMap dataOf? ≠ [] → Settled fetching y) ∧
      ∀ o', x' = some o' →
        ∃ o, x = some o ∧ (o.direct = true → o'.direct = true ∨ Settled fetching y) := by
  have hquiet : ∀ {z : Option Outgoing}, SenderSide P offer stream relayed fetching y z →
      SenderSide P offer stream (relayed ++ ([] : List LocalEvent).filterMap dataOf?) fetching y z ∧
        Logged id (relayed ++ ([] : List LocalEvent).filterMap dataOf?) [] ∧
        (([] : List LocalEvent).filterMap dataOf? ≠ [] → Settled fetching y) := by
    intro z hz
    rw [List.filterMap_nil, List.append_nil]
    refine ⟨hz, ?_, fun hne => absurd rfl hne⟩
    rintro m ⟨⟩
  cases hs with
  | absent =>
      rcases hquiet h with ⟨hside, hlogged, hmore⟩
      exact ⟨hside, hlogged, hmore, absent⟩
  | offered he hmade hid' =>
      rcases Result.bind_ok hmade with ⟨hashed, -, hmade⟩
      rcases State.makeOffer_spec hmade with ⟨link, -, -, hdrawn, -⟩
      have hoffers := hheeds.offers
      rw [he, ← hid'] at hoffers
      exact absurd hdrawn hoffers
  | cleared he hover =>
      have hgone : SenderSide P offer stream relayed fetching y none := {
        offer_eq := absent
        waiting := absent
        addressed := absent
        settled := absent
        relays := absent
        streams := absent
        done := by rintro o path ⟨⟩
        few := h.few }
      rcases hquiet hgone with ⟨hside, hlogged, hmore⟩
      exact ⟨hside, hlogged, hmore, absent⟩
  | @kept o goneSince =>
      have hsame : SenderSide P offer stream relayed fetching y
          (some { o with goneSince := goneSince }) :=
        h.same rfl rfl rfl rfl rfl (fun hstage => hstage) fun path hstage => h.done o path rfl hstage
      rcases hquiet hsame with ⟨hside, hlogged, hmore⟩
      refine ⟨hside, hlogged, hmore, ?_⟩
      rintro _ ⟨⟩
      exact ⟨o, rfl, .inl⟩
  | @stopped o stage goneSince hstops hlive hstopped =>
      have hsame : SenderSide P offer stream relayed fetching y
          (some { o with stage := stage, goneSince := goneSince }) := by
        refine h.same rfl rfl rfl rfl rfl (fun hstage => absurd hstage hstopped.not_offered) ?_
        intro path hstage
        change stage = .done path at hstage
        rcases hstopped with rfl | rfl | ⟨why, rfl⟩
        · cases hstage
        · cases hstage
        · cases hstage
      rcases hquiet hsame with ⟨hside, hlogged, hmore⟩
      refine ⟨hside, hlogged, hmore, ?_⟩
      rintro _ ⟨⟩
      exact ⟨o, rfl, .inl⟩
  | @refused o body d a stage he hanswer hopen hrefused hstopped =>
      have hsettled := hheeds.answers body d a he hanswer.1 hanswer.2.1
      have hundone : ∀ path, stage ≠ .done path := by
        rcases hstopped with rfl | rfl | ⟨why, rfl⟩
        · exact nofun
        · exact nofun
        · exact nofun
      have hsame : SenderSide P offer stream relayed fetching y
          (some { o.forRelay with stage := stage }) := by
        cases hforRelay : o.direct && !o.stage.finished with
        | false =>
            have hstill : o.forRelay = o := by
              rw [Outgoing.forRelay, hforRelay]
              rfl
            rw [hstill]
            exact h.same rfl rfl rfl rfl rfl (fun hstage => absurd hstage hstopped.not_offered)
              fun path hstage => absurd hstage (hundone path)
        | true =>
            rcases Bool.and_eq_true_iff.mp hforRelay with ⟨hdirect, -⟩
            have hempty := (h.streams o rfl hdirect).1
            have hnone : o.to_ = none := (h.addressed o rfl).unanswered hopen
            have hover : o.forRelay = { o with direct := false, next := 0, acked := 0 } := by
              rw [Outgoing.forRelay, hforRelay]
              rfl
            rw [hover]
            exact {
              offer_eq := by
                rintro _ ⟨⟩
                exact h.offer_eq o rfl
              waiting := by
                rintro _ ⟨⟩ hstage
                exact absurd hstage hstopped.not_offered
              addressed := by
                rintro _ ⟨⟩ hsome
                exact absurd hnone hsome
              settled := fun _ _ _ => hsettled
              relays := by
                rintro _ ⟨⟩ _
                exact ⟨by rw [hempty]; rfl, Reached.zero _ _⟩
              streams := by
                rintro _ ⟨⟩ ⟨⟩
              done := by
                rintro _ path ⟨⟩ hstage
                exact absurd hstage (hundone path)
              few := h.few }
      rcases hquiet hsame with ⟨hside, hlogged, hmore⟩
      refine ⟨hside, hlogged, hmore, ?_⟩
      rintro _ ⟨⟩
      exact ⟨o, rfl, fun _ => .inr hsettled⟩
  | @answered o o' body d a out he hanswer hopen haccepted hlocal hpump =>
      have hsettled := hheeds.answers body d a he hanswer.1 hanswer.2.1
      -- the record starts over, and no piece has gone through the relay yet
      have hfresh : o.forRelay.next = 0 ∧ o.forRelay.direct = false ∧ relayed = [] ∧
          Reached relayed y o.forRelay.acked := by
        rcases hopen with hoffered | ⟨hdirect, hlive⟩
        · rcases h.waiting o rfl hoffered with ⟨hrelay, hnext⟩
          have hstill : o.forRelay = o := by
            rw [Outgoing.forRelay, hrelay]
            rfl
          rcases h.relays o rfl hrelay with ⟨hlen, hreached⟩
          rw [hstill]
          exact ⟨hnext, hrelay, List.length_eq_zero_iff.mp (hlen.symm.trans hnext), hreached⟩
        · have hover : o.forRelay = { o with direct := false, next := 0, acked := 0 } := by
            rw [Outgoing.forRelay, hdirect, hlive]
            rfl
          rw [hover]
          exact ⟨rfl, rfl, (h.streams o rfl hdirect).1, Reached.zero _ _⟩
      rcases hfresh with ⟨hnext, hrelay, hempty, hreached⟩
      have hbase : SenderSide P offer stream relayed fetching y
          (some { o.forRelay with to_ := some a.replyTo, stage := .moving 0, moved := d.now }) := {
        offer_eq := by
          rintro _ ⟨⟩
          exact (Outgoing.forRelay_offer o).trans (h.offer_eq o rfl)
        waiting := by
          rintro _ ⟨⟩ ⟨⟩
        addressed := by
          rintro _ ⟨⟩ _
          exact ⟨nofun, hrelay⟩
        settled := fun _ _ _ => hsettled
        relays := by
          rintro _ ⟨⟩ _
          exact ⟨by rw [hempty]; exact hnext, hreached⟩
        streams := by
          rintro _ ⟨⟩ hstream
          exact absurd hstream (by rw [show _ = false from hrelay]; exact Bool.false_ne_true)
        done := by
          rintro _ path ⟨⟩ ⟨⟩
        few := h.few }
      rcases pumped_side hbase hpump hid rfl with ⟨hside, hlogged, hmore⟩
      refine ⟨hside, hlogged, hmore, ?_⟩
      rintro _ ⟨⟩
      exact ⟨o, rfl, fun _ => .inr hsettled⟩
  | @acked o o' body d a out he hdecode hid' hlive hstate hpump =>
      rcases hheeds.acks body d a he hdecode hid' with ⟨hreached, -⟩
      have hbase := h.acknowledged hreached d.now (.moving (max o.acked a.received.toNat)) nofun
        nofun
      rcases pumped_side hbase hpump hid rfl with ⟨hside, hlogged, hmore⟩
      refine ⟨hside, hlogged, hmore, ?_⟩
      rintro _ ⟨⟩
      refine ⟨o, rfl, fun hdirect => .inl ?_⟩
      exact hpump.direct_eq.trans hdirect
  | @confirmed o body d a he hdecode hid' hlive hstate =>
      rcases hheeds.acks body d a he hdecode hid' with ⟨hreached, hkept⟩
      have hsame := h.acknowledged hreached d.now (.done none) nofun fun _ _ => hkept hstate
      rcases hquiet hsame with ⟨hside, hlogged, hmore⟩
      refine ⟨hside, hlogged, hmore, ?_⟩
      rintro _ ⟨⟩
      exact ⟨o, rfl, .inl⟩
  | @damaged o body d a why he hdecode hid' hlive hstate =>
      rcases hheeds.acks body d a he hdecode hid' with ⟨hreached, -⟩
      have hsame := h.acknowledged hreached d.now (.failed why) nofun nofun
      rcases hquiet hsame with ⟨hside, hlogged, hmore⟩
      refine ⟨hside, hlogged, hmore, ?_⟩
      rintro _ ⟨⟩
      exact ⟨o, rfl, .inl⟩
  | @pumped o o' d out he hmoving hpump =>
      rcases pumped_side h hpump hid hmoving with ⟨hside, hlogged, hmore⟩
      refine ⟨hside, hlogged, hmore, ?_⟩
      rintro _ ⟨⟩
      exact ⟨o, rfl, fun hdirect => .inl (hpump.direct_eq.trans hdirect)⟩
  | @begun o now he hoffered =>
      rcases h.waiting o rfl hoffered with ⟨hrelay, hnext⟩
      rcases h.relays o rfl hrelay with ⟨hlen, hreached⟩
      have hempty : relayed = [] := List.length_eq_zero_iff.mp (hlen.symm.trans hnext)
      have hnone : o.to_ = none := (h.addressed o rfl).unanswered (.inl hoffered)
      have hbegun : SenderSide P offer stream relayed fetching y
          (some { o with stage := .moving 0, moved := now, direct := true }) := {
        offer_eq := by
          rintro _ ⟨⟩
          exact h.offer_eq o rfl
        waiting := by
          rintro _ ⟨⟩ ⟨⟩
        addressed := by
          rintro _ ⟨⟩ hsome
          exact absurd hnone hsome
        settled := by
          rintro _ ⟨⟩ hsome
          exact absurd hnone hsome
        relays := by
          rintro _ ⟨⟩ ⟨⟩
        streams := by
          rintro _ ⟨⟩ _
          refine ⟨hempty, ?_, ?_⟩
          · rw [show _ = 0 from hnext]
            exact Nat.zero_le _
          · have hbound := hreached.1
            rw [hempty] at hbound
            exact hbound.trans (Nat.zero_le _)
        done := by
          rintro _ path ⟨⟩ ⟨⟩
        few := h.few }
      rcases hquiet hbegun with ⟨hside, hlogged, hmore⟩
      refine ⟨hside, hlogged, hmore, ?_⟩
      rintro _ ⟨⟩
      exact ⟨o, rfl, fun _ => .inl rfl⟩
  | @progressed o count now he hlive hdirect =>
      have hcount := hheeds.progress count now he
      have hnone : o.to_ = none := (h.addressed o rfl).unanswered (.inr ⟨hdirect, hlive⟩)
      have hprogressed : SenderSide P offer stream relayed fetching y
          (some { o with acked := count, next := count, stage := .moving count, moved := now }) := {
        offer_eq := by
          rintro _ ⟨⟩
          exact h.offer_eq o rfl
        waiting := by
          rintro _ ⟨⟩ ⟨⟩
        addressed := by
          rintro _ ⟨⟩ hsome
          exact absurd hnone hsome
        settled := by
          rintro _ ⟨⟩ hsome
          exact absurd hnone hsome
        relays := by
          rintro _ ⟨⟩ hrelay
          cases hdirect.symm.trans hrelay
        streams := by
          rintro _ ⟨⟩ _
          exact ⟨(h.streams o rfl hdirect).1, hcount, hcount⟩
        done := by
          rintro _ path ⟨⟩ ⟨⟩
        few := h.few }
      rcases hquiet hprogressed with ⟨hside, hlogged, hmore⟩
      refine ⟨hside, hlogged, hmore, ?_⟩
      rintro _ ⟨⟩
      exact ⟨o, rfl, .inl⟩
  | @delivered o he hlive hdirect =>
      have hsame : SenderSide P offer stream relayed fetching y
          (some { o with stage := .done none }) :=
        h.same rfl rfl rfl rfl rfl nofun fun _ _ => hheeds.finished he
      rcases hquiet hsame with ⟨hside, hlogged, hmore⟩
      refine ⟨hside, hlogged, hmore, ?_⟩
      rintro _ ⟨⟩
      exact ⟨o, rfl, .inl⟩

end Passage

end App
end Asli
