import Asli.App.Consent
import Asli.App.Direct

/-!
# Progress — what a sending transfer shows

A sender is its transfers and the threads that serve its offers directly.  A transfer leaves
`Offered` on an answer or on a direct connection, and from there acknowledgements move it.  An
acknowledgement is not signed, and it is taken as it comes: `TellsTruth` is what one has to say for
the transfer to show no more than has happened.
-/

namespace Asli
namespace App

open Logic
open Crypto (Primitives OfferId Offer Answer Ack AckState Chunk)
open Net (LocalEvent)
open Core (DeviceId)

/-! ## A sender and its threads -/

structure Sender where
  state : State
  serving : OfferId → Serving

inductive SenderEvent where
  | own (e : Event)
  | serve (id : OfferId) (v : Serve)

/-- A call of the transfers that only a thread that serves an offer makes. -/
def Event.isServing : Event → Bool
  | .directBegin _ _ | .directProgress _ _ _ | .directFinished _ _ | .directFailed _ _ => true
  | _ => false

namespace Sender

def start (devices : Registry) (disk : Disk) : Sender where
  state := .default devices disk
  serving := fun _ => .over

/-- The threads after an event: an offer with a direct way starts one. -/
def listen (w : Sender) (e : Event) (after : State) : OfferId → Serving :=
  match e with
  | .offer _ _ _ _ _ d => fun id =>
      if d.offerId = some id ∧ (after.sending.get? id).any fun o => o.offer.direct.isSome then
        .listening
      else w.serving id
  | _ => w.serving

variable (P : Primitives)

/-- One event: the sender after it, and the messages it put into the queue. -/
def step (w : Sender) : SenderEvent → Sender × List LocalEvent
  | .own e =>
      if e.isServing then (w, [])
      else
        let r := w.state.step P e
        (⟨r.1, w.listen e r.1⟩, r.2)
  | .serve id v =>
      let r := (w.serving id).step id w.state v
      (⟨r.1, Function.update w.serving id r.2.1⟩, [])

/-- The sender a run leads to. -/
def run (w : Sender) (es : List SenderEvent) : Sender :=
  es.foldl (fun w e => (w.step P e).1) w

end Sender

/-! ## What has happened -/

section History

variable (P : Primitives)

/-- An event puts one piece of an offered file on its way: into the queue to the relay, or on the
stream to the receiver. -/
def SendsPiece (offer : Offer) (i : Nat) (w : Sender) (e : SenderEvent) : Prop :=
  (∃ o m c, w.state.sending.get? offer.offerId = some o ∧ o.offer = offer ∧
    m ∈ (w.step P e).2 ∧ pieceOf? m = some c ∧ c.offerId = offer.offerId ∧ c.index.toNat = i) ∨
  ∃ v data, e = .serve offer.offerId v ∧ w.serving offer.offerId = .sending offer i ∧
    ((w.serving offer.offerId).step offer.offerId w.state v).2.2 = some data

/-- The receiver of an offer that waits reaches this device directly. -/
def Reaches (offer : Offer) (w : Sender) (e : SenderEvent) : Prop :=
  ∃ now o, e = .serve offer.offerId (.greeted now) ∧ w.serving offer.offerId = .listening ∧
    w.state.sending.get? offer.offerId = some o ∧ o.offer = offer ∧ o.stage = .offered

/-- The receiver of an offer accepts it in a signed answer. -/
def Accepts (offer : Offer) (w : Sender) (e : SenderEvent) : Prop :=
  ∃ conn own, e = .own own ∧ ConsentsTo P offer conn w.state own

variable (w₀ : Sender) (es : List SenderEvent)

def PieceSent (offer : Offer) (i : Nat) : Prop :=
  Runs.Earlier (fun w e => (Sender.step P w e).1) (SendsPiece P offer i) w₀ es

def Agreed (offer : Offer) : Prop :=
  Runs.Earlier (fun w e => (Sender.step P w e).1)
    (fun w e => Accepts P offer w e ∨ Reaches offer w e) w₀ es

/-- What a transfer shows is so: it moves or is done only since its receiver accepted it or reached
this device, it shows no more pieces than were sent, and it is done only when all of them were. -/
structure Outgoing.ShowsTruth (o : Outgoing) : Prop where
  agreed : (∃ n, o.stage = .moving n) ∨ (∃ path, o.stage = .done path) → Agreed P w₀ es o.offer
  moving : ∀ n, o.stage = .moving n → ∀ i < n, PieceSent P w₀ es o.offer i
  done : ∀ path, o.stage = .done path → ∀ i < o.offer.chunkCount, PieceSent P w₀ es o.offer i

/-- The rest of what a run keeps of a record. -/
structure Outgoing.Truthful (o : Outgoing) : Prop extends o.ShowsTruth P w₀ es where
  waiting : o.stage = .offered → o.direct = false ∧ o.next = 0 ∧ o.acked = 0
  addressed : o.Addressed
  behind : o.stage.finished = false → o.acked ≤ o.next
  shown : ∀ n, o.stage = .moving n → n ≤ o.next
  whole : totalPieces o.offer = o.offer.chunkCount
  sent : ∀ i < o.next, PieceSent P w₀ es o.offer i

/-- What a run keeps of a thread that is sending: it sends the offer of the record under its id, and
the pieces it counts are on the stream. -/
structure Serving.Truthful (s : State) (id : OfferId) (offer : Offer) (count : Nat) : Prop where
  keyed : offer.offerId = id
  bound : count ≤ totalPieces offer
  same : ∀ o, s.sending.get? id = some o → o.offer = offer
  sent : ∀ i < count, PieceSent P w₀ es offer i

structure Sender.Truthful (w : Sender) : Prop where
  keyed : w.state.WellKeyed
  records : ∀ id o, w.state.sending.get? id = some o → o.Truthful P w₀ es
  threads : ∀ id offer count, (w.serving id).sent? = some (offer, count) →
    Serving.Truthful P w₀ es w.state id offer count
  busy : ∀ id offer i, w.serving id = .sending offer i → i < totalPieces offer

end History

/-- The id an offer draws is in use by no record and no thread. -/
def DrawsUnused (w : Sender) : SenderEvent → Prop
  | .own e => ∀ id, e.Offers id → w.state.sending.get? id = none ∧ w.serving id = .over
  | .serve _ _ => True

/-- An acknowledgement, unless it says the file arrived damaged, comes for a transfer that moves,
counts no more pieces than have gone, and says the file is done only when all of them have. -/
def TellsTruth (w : Sender) : SenderEvent → Prop
  | .own (.message .fileAck body _) =>
      ∀ ack o, Ack.decode body = .ok ack → w.state.sending.get? ack.offerId = some o →
        o.stage.finished = false → ack.state ≠ .corrupt →
        (∃ n, o.stage = .moving n) ∧ ack.received.toNat ≤ o.next ∧
          (ack.state = .done → o.next = o.offer.chunkCount)
  | _ => True

/-! ## Records -/

/-- A file this device offers is small enough to count its pieces in 32 bits. -/
theorem State.whole_of_offer {P : Primitives} {s : State} {path : Path} {to_ : DeviceId}
    {peer : String} {content : Except String Bytes} {d : OfferDraws} {offer : Offer} {body : Bytes}
    (h : (hashFile P content >>= fun hashed => s.makeOffer P path to_ peer hashed d) =
      .ok (offer, body)) : totalPieces offer = offer.chunkCount := by
  rcases Result.bind_ok h with ⟨hashed, hhashed, hmade⟩
  rcases makeOffer_spec hmade with ⟨link, -, -, -, -, -, hsize, -, hchunk, -⟩
  have hlen : offer.size.toNat ≤ MAX_FILE_BYTES := by
    unfold hashFile at hhashed
    split at hhashed
    · cases hhashed
    · split at hhashed
      · cases hhashed
      · rename_i hsmall
        cases hhashed
        rw [hsize, UInt64.toNat_ofNat']
        exact le_trans (Nat.mod_le _ _) (Nat.not_lt.mp hsmall)
  have hcount : offer.chunkCount ≤ U32_MAX := by
    have hbytes : offer.chunkBytes.toNat = 262144 := by
      rw [hchunk]
      rfl
    unfold Offer.chunkCount
    split
    · exact Nat.zero_le _
    · rw [hbytes]
      unfold MAX_FILE_BYTES at hlen
      unfold U32_MAX
      omega
  exact min_eq_left hcount

section Records

variable {P : Primitives} {w₀ : Sender} {es : List SenderEvent}

theorem PieceSent.append {offer : Offer} {i : Nat} (h : PieceSent P w₀ es offer i)
    (more : List SenderEvent) : PieceSent P w₀ (es ++ more) offer i :=
  Runs.Earlier.append h more

theorem Agreed.append {offer : Offer} (h : Agreed P w₀ es offer) (more : List SenderEvent) :
    Agreed P w₀ (es ++ more) offer :=
  Runs.Earlier.append h more

theorem Outgoing.Truthful.append {o : Outgoing} (h : o.Truthful P w₀ es)
    (more : List SenderEvent) : o.Truthful P w₀ (es ++ more) where
  agreed := fun hstage => (h.agreed hstage).append more
  moving := fun n hn i hi => (h.moving n hn i hi).append more
  done := fun path hpath i hi => (h.done path hpath i hi).append more
  waiting := h.waiting
  addressed := h.addressed
  behind := h.behind
  shown := h.shown
  whole := h.whole
  sent := fun i hi => (h.sent i hi).append more

/-- A record that is over without having been done shows nothing. -/
theorem Outgoing.Truthful.over {o o' : Outgoing} (h : o.Truthful P w₀ es)
    (hstopped : o'.stage.stopped) (hoffer : o'.offer = o.offer) (hnext : o'.next ≤ o.next)
    (haddressed : o'.Addressed) : o'.Truthful P w₀ es := by
  have hmoving : ∀ n, o'.stage ≠ .moving n := by
    intro n hn
    have hfalse := hstopped.isMoving
    rw [hn] at hfalse
    cases hfalse
  have hdone : ∀ path, o'.stage ≠ .done path := by
    rcases hstopped with hstage | hstage | ⟨why, hstage⟩
    · exact fun path hpath => nomatch hstage.symm.trans hpath
    · exact fun path hpath => nomatch hstage.symm.trans hpath
    · exact fun path hpath => nomatch hstage.symm.trans hpath
  have hunfinished : o'.stage.finished ≠ false := by
    rcases hstopped with hstage | hstage | ⟨why, hstage⟩
    · rw [hstage]; exact nofun
    · rw [hstage]; exact nofun
    · rw [hstage]; exact nofun
  refine { agreed := ?_, moving := ?_, done := ?_, waiting := ?_, addressed := haddressed,
           behind := ?_, shown := ?_, whole := ?_, sent := ?_ }
  · rintro (⟨n, hn⟩ | ⟨path, hpath⟩)
    · exact absurd hn (hmoving n)
    · exact absurd hpath (hdone path)
  · exact fun n hn => absurd hn (hmoving n)
  · exact fun path hpath => absurd hpath (hdone path)
  · exact fun hoffered => absurd hoffered hstopped.not_offered
  · exact fun hlive => absurd hlive hunfinished
  · exact fun n hn => absurd hn (hmoving n)
  · rw [hoffer]
    exact h.whole
  · intro i hi
    rw [hoffer]
    exact h.sent i (lt_of_lt_of_le hi hnext)

/-- What a pump leaves of a record that moves and has been agreed to. -/
theorem Pumped.truthful {draws : Nat → PieceDraw} {o o₁ o' : Outgoing} {out : List LocalEvent}
    (h : Pumped draws o₁ o' out) (hold : o.Truthful P w₀ es) (hoffer : o₁.offer = o.offer)
    (hagreed : Agreed P w₀ es o.offer) {n : Nat} (hmoving : o₁.stage = .moving n)
    (hshown : n ≤ o₁.next) (hbehind : o₁.acked ≤ o₁.next) (hnext : o₁.next ≤ o.next)
    (hrelay : o₁.to_ ≠ none → o₁.direct = false)
    (hsent : ∀ i, o₁.next ≤ i → i < o'.next → PieceSent P w₀ es o.offer i) :
    o'.Truthful P w₀ es := by
  have hoffer' : o'.offer = o.offer := h.offer_eq.trans hoffer
  have hall : ∀ i < o'.next, PieceSent P w₀ es o'.offer i := by
    intro i hi
    rw [hoffer']
    rcases Nat.lt_or_ge i o₁.next with hlt | hge
    · exact hold.sent i (lt_of_lt_of_le hlt hnext)
    · exact hsent i hge hi
  have hpast : o'.stage ≠ .offered := by
    rcases h.stage with hstage | ⟨why, hstage⟩
    · rw [hstage, hmoving]; exact nofun
    · rw [hstage]; exact nofun
  have hundone : ∀ path, o'.stage ≠ .done path := by
    rcases h.stage with hstage | ⟨why, hstage⟩
    · rw [hstage, hmoving]; exact nofun
    · rw [hstage]; exact nofun
  have hcount : ∀ m, o'.stage = .moving m → m ≤ o'.next := by
    intro m hm
    rcases h.stage with hstage | ⟨why, hstage⟩
    · rw [hm, hmoving] at hstage
      cases hstage
      exact le_trans hshown h.next
    · rw [hm] at hstage
      cases hstage
  refine { agreed := ?_, moving := ?_, done := ?_, waiting := ?_, addressed := ?_, behind := ?_,
           shown := hcount, whole := ?_, sent := hall }
  · intro _
    rw [hoffer']
    exact hagreed
  · exact fun m hm i hi => hall i (lt_of_lt_of_le hi (hcount m hm))
  · exact fun path hpath => absurd hpath (hundone path)
  · exact fun hoffered => absurd hoffered hpast
  · intro hto
    rw [h.to_eq] at hto
    exact ⟨hpast, h.direct_eq.trans (hrelay hto)⟩
  · intro _
    rw [h.acked_eq]
    exact le_trans hbehind h.next
  · rw [hoffer']
    exact hold.whole

/-- The fields the invariant does not read may change. -/
theorem Outgoing.Truthful.of_eq {o o' : Outgoing} (h : o.Truthful P w₀ es)
    (hoffer : o'.offer = o.offer) (hstage : o'.stage = o.stage) (hnext : o'.next = o.next)
    (hacked : o'.acked = o.acked) (hto : o'.to_ = o.to_) (hdirect : o'.direct = o.direct) :
    o'.Truthful P w₀ es := by
  cases o
  cases o'
  cases hoffer
  cases hstage
  cases hnext
  cases hacked
  cases hto
  cases hdirect
  exact ⟨⟨h.agreed, h.moving, h.done⟩, h.waiting, h.addressed, h.behind, h.shown, h.whole, h.sent⟩

/-- The record of an offer that has just gone out. -/
theorem Outgoing.truthful_offered {offer : Offer} (hwhole : totalPieces offer = offer.chunkCount)
    (path : Path) (peer conn : String) (now : Instant) :
    (Outgoing.offered offer path peer conn now).Truthful P w₀ es where
  agreed := by rintro (⟨n, hn⟩ | ⟨path, hpath⟩) <;> contradiction
  moving := nofun
  done := nofun
  waiting := fun _ => ⟨rfl, rfl, rfl⟩
  addressed := fun hto => absurd rfl hto
  behind := fun _ => le_refl 0
  shown := nofun
  whole := hwhole
  sent := fun i hi => absurd hi (Nat.not_lt_zero i)

/-- A record that is done once all its pieces were sent. -/
theorem Outgoing.Truthful.finish {o o' : Outgoing} (h : o.Truthful P w₀ es)
    (hoffer : o'.offer = o.offer) {kept : Option Path} (hstage : o'.stage = .done kept)
    (hnext : o'.next = o.next) (haddressed : o'.Addressed)
    (hmoved : ∃ n, o.stage = .moving n)
    (hall : ∀ i < o.offer.chunkCount, PieceSent P w₀ es o.offer i) : o'.Truthful P w₀ es where
  agreed := by
    intro _
    rw [hoffer]
    exact h.agreed (Or.inl hmoved)
  moving := fun n hn => nomatch hstage.symm.trans hn
  done := by
    intro path _
    rw [hoffer]
    exact hall
  waiting := fun hoffered => nomatch hstage.symm.trans hoffered
  addressed := haddressed
  behind := by
    intro hlive
    rw [hstage] at hlive
    cases hlive
  shown := fun n hn => nomatch hstage.symm.trans hn
  whole := by
    rw [hoffer]
    exact h.whole
  sent := by
    intro i hi
    rw [hnext] at hi
    rw [hoffer]
    exact h.sent i hi

theorem Outgoing.Addressed.of_past {o o' : Outgoing} (h : o.Addressed) (hto : o'.to_ = o.to_)
    (hdirect : o'.direct = o.direct) (hpast : o'.stage ≠ .offered) : o'.Addressed := by
  intro hto'
  rw [hto] at hto'
  exact ⟨hpast, hdirect.trans (h hto').2⟩

/-- An event that is no call of a serving thread keeps a record truthful, when the pieces it sends
are counted, an acceptance is recorded, and an acknowledgement tells the truth. -/
theorem Sends.truthful {s : State} {e : Event} {id : OfferId} {x : Option Outgoing} {o' : Outgoing}
    {out : List LocalEvent} (h : Sends P s e id x (some o') out)
    (hold : ∀ o, x = some o → o.Truthful P w₀ es) (hserving : e.isServing = false)
    (hsent : ∀ o, x = some o → ∀ draws o₁, Pumped draws o₁ o' out → o₁.offer = o.offer →
      ∀ i, o₁.next ≤ i → i < o'.next → PieceSent P w₀ es o.offer i)
    (haccept : ∀ o, x = some o → ∀ body answer, AnswerTo P s id o body answer →
      answer.accepted = true → (∃ d, e = .message .fileAnswer body d) → Agreed P w₀ es o.offer)
    (hack : ∀ o, x = some o → ∀ body ack d, e = .message .fileAck body d →
      Ack.decode body = .ok ack → ack.offerId = id → o.stage.finished = false →
      ack.state ≠ .corrupt → (∃ n, o.stage = .moving n) ∧ ack.received.toNat ≤ o.next ∧
        (ack.state = .done → o.next = o.offer.chunkCount)) :
    o'.Truthful P w₀ es := by
  cases h with
  | offered he hmade hid => exact Outgoing.truthful_offered (State.whole_of_offer hmade) _ _ _ _
  | @kept o goneSince => exact (hold o rfl).of_eq rfl rfl rfl rfl rfl rfl
  | @stopped o stage goneSince hstops hlive hstopped =>
      refine (hold o rfl).over hstopped rfl (le_refl _) ?_
      exact (hold o rfl).addressed.of_past rfl rfl hstopped.not_offered
  | @refused o body d answer stage he hanswer hopen hrefused hstopped =>
      have hnone : o.forRelay.to_ = none :=
        o.forRelay_to.trans ((hold o rfl).addressed.unanswered hopen)
      refine (hold o rfl).over hstopped (Outgoing.forRelay_offer o) ?_ fun hto => absurd hnone hto
      change o.forRelay.next ≤ o.next
      unfold Outgoing.forRelay
      split
      · exact Nat.zero_le _
      · exact le_refl _
  | @answered o o' body d answer out he hanswer hopen haccepted hlocal hpump =>
      -- nothing is on its way yet, or it starts over
      have hfresh : o.forRelay.next = 0 ∧ o.forRelay.acked = 0 ∧ o.forRelay.direct = false := by
        unfold Outgoing.forRelay
        split
        · exact ⟨rfl, rfl, rfl⟩
        · rename_i hsame
          rcases hopen with hoffered | ⟨hdirect, hlive⟩
          · rcases (hold o rfl).waiting hoffered with ⟨hdirect, hnext, hacked⟩
            exact ⟨hnext, hacked, hdirect⟩
          · rw [hdirect, hlive] at hsame
            exact absurd rfl hsame
      have hoffer := Outgoing.forRelay_offer o
      refine hpump.truthful (hold o rfl) hoffer
          (haccept o rfl body answer hanswer haccepted ⟨d, he⟩)
        rfl (Nat.zero_le _) ?_ ?_ (fun _ => hfresh.2.2) (hsent o rfl d.pieces _ hpump hoffer)
      · change o.forRelay.acked ≤ o.forRelay.next
        rw [hfresh.1, hfresh.2.1]
      · change o.forRelay.next ≤ o.next
        rw [hfresh.1]
        exact Nat.zero_le _
  | @acked o o' body d ack out he hread hid hlive hstate hpump =>
      have hcorrupt : ack.state ≠ .corrupt := by
        rw [hstate]
        exact nofun
      rcases hack o rfl body ack d he hread hid hlive hcorrupt with ⟨hmoved, hreceived, -⟩
      have hcount : max o.acked ack.received.toNat ≤ o.next :=
        max_le ((hold o rfl).behind hlive) hreceived
      exact hpump.truthful (hold o rfl) rfl ((hold o rfl).agreed (Or.inl hmoved)) rfl hcount hcount
        (le_refl _) (fun hto => ((hold o rfl).addressed hto).2) (hsent o rfl d.pieces _ hpump rfl)
  | @confirmed o body d ack he hread hid hlive hstate =>
      have hcorrupt : ack.state ≠ .corrupt := by
        rw [hstate]
        exact nofun
      rcases hack o rfl body ack d he hread hid hlive hcorrupt with ⟨hmoved, -, hlast⟩
      refine (hold o rfl).finish rfl rfl rfl ((hold o rfl).addressed.of_past rfl rfl nofun)
          hmoved ?_
      intro i hi
      rw [← hlast hstate] at hi
      exact (hold o rfl).sent i hi
  | @damaged o body d ack why he hread hid hlive hstate =>
      refine (hold o rfl).over (Stage.stopped_failed why) rfl (le_refl _) ?_
      exact (hold o rfl).addressed.of_past rfl rfl nofun
  | @pumped o o' d out he hmoving hpump =>
      have hmoved : ∃ n, o.stage = .moving n := by
        cases hstage : o.stage with
        | moving n => exact ⟨n, rfl⟩
        | offered | done _ | declined | cancelled | failed _ =>
            rw [hstage] at hmoving; cases hmoving
      rcases hmoved with ⟨n, hn⟩
      exact hpump.truthful (hold o rfl) rfl ((hold o rfl).agreed (Or.inl ⟨n, hn⟩)) hn
        ((hold o rfl).shown n hn) ((hold o rfl).behind (Stage.unfinished_of_moving hmoving))
        (le_refl _) (fun hto => ((hold o rfl).addressed hto).2) (hsent o rfl _ _ hpump rfl)
  | begun he | progressed he | delivered he =>
      rw [he] at hserving
      cases hserving

/-- A call of a serving thread keeps a record truthful, when it was reached by the receiver, and
what it reports is on the stream. -/
theorem Sends.truthful_serving {s : State} {e : Event} {id : OfferId} {x : Option Outgoing}
    {o' : Outgoing} {out : List LocalEvent} (h : Sends P s e id x (some o') out)
    (hold : ∀ o, x = some o → o.Truthful P w₀ es) (hserving : e.isServing = true)
    (hbegin : ∀ o, x = some o → ∀ now, e = .directBegin id now → o.stage = .offered →
      Agreed P w₀ es o.offer)
    (hprogress : ∀ o, x = some o → ∀ sent now, e = .directProgress id sent now → ∀ i < sent,
      PieceSent P w₀ es o.offer i)
    (hdone : ∀ o, x = some o → e = .directFinished id .done → ∀ i < o.offer.chunkCount,
      PieceSent P w₀ es o.offer i) : o'.Truthful P w₀ es := by
  -- a record that goes directly and is not over is moving
  have hmoved : ∀ {o : Outgoing}, o.Truthful P w₀ es → o.stage.finished = false →
      o.direct = true → ∃ n, o.stage = .moving n := by
    intro o ho hlive hdirect
    cases hstage : o.stage with
    | moving n => exact ⟨n, rfl⟩
    | offered =>
        rw [(ho.waiting hstage).1] at hdirect
        cases hdirect
    | done _ | declined | cancelled | failed _ => rw [hstage] at hlive; cases hlive
  cases h with
  | offered he => rw [he] at hserving; cases hserving
  | @kept o goneSince => exact (hold o rfl).of_eq rfl rfl rfl rfl rfl rfl
  | @stopped o stage goneSince hstops hlive hstopped =>
      refine (hold o rfl).over hstopped rfl (le_refl _) ?_
      exact (hold o rfl).addressed.of_past rfl rfl hstopped.not_offered
  | refused stage he | answered he | acked he | confirmed he | damaged why he | pumped he =>
      rw [he] at hserving
      cases hserving
  | @begun o now he hoffered =>
      rcases (hold o rfl).waiting hoffered with ⟨hdirect, hnext, hacked⟩
      have hnone : o.to_ = none := (hold o rfl).addressed.unanswered (Or.inl hoffered)
      exact {
        agreed := fun _ => hbegin o rfl now he hoffered
        moving := by
          intro n hn i hi
          cases hn
          exact absurd hi (Nat.not_lt_zero i)
        done := nofun
        waiting := nofun
        addressed := fun hto => absurd hnone hto
        behind := by
          intro _
          change o.acked ≤ o.next
          rw [hacked]
          exact Nat.zero_le _
        shown := by
          intro n hn
          cases hn
          exact Nat.zero_le _
        whole := (hold o rfl).whole
        sent := (hold o rfl).sent }
  | @progressed o sent now he hlive hdirect =>
      have hnone : o.to_ = none := (hold o rfl).addressed.unanswered (Or.inr ⟨hdirect, hlive⟩)
      have hall := hprogress o rfl sent now he
      exact {
        agreed := fun _ => (hold o rfl).agreed (Or.inl (hmoved (hold o rfl) hlive hdirect))
        moving := by
          intro n hn i hi
          cases hn
          exact hall i hi
        done := nofun
        waiting := nofun
        addressed := fun hto => absurd hnone hto
        behind := fun _ => le_refl sent
        shown := by
          intro n hn
          cases hn
          exact le_refl _
        whole := (hold o rfl).whole
        sent := hall }
  | @delivered o he hlive hdirect =>
      have hnone : o.to_ = none := (hold o rfl).addressed.unanswered (Or.inr ⟨hdirect, hlive⟩)
      exact (hold o rfl).finish rfl rfl rfl (fun hto => absurd hnone hto)
        (hmoved (hold o rfl) hlive hdirect) (hdone o rfl he)

/-- A record keeps its offer, unless one is offered under its id. -/
theorem Sends.offer_kept {s : State} {e : Event} {id : OfferId} {x : Option Outgoing}
    {o' : Outgoing} {out : List LocalEvent} (h : Sends P s e id x (some o') out) :
    e.Offers id ∨ ∃ o, x = some o ∧ o'.offer = o.offer := by
  cases h with
  | offered he hmade hid =>
      rcases Result.bind_ok hmade with ⟨hashed, -, hmade⟩
      rcases State.makeOffer_spec hmade with ⟨link, -, -, hdrawn, -⟩
      rw [he, ← hid]
      exact Or.inl hdrawn
  | kept | stopped | confirmed | damaged | begun | progressed | delivered =>
      exact Or.inr ⟨_, rfl, rfl⟩
  | refused stage he hanswer => exact Or.inr ⟨_, rfl, Outgoing.forRelay_offer _⟩
  | answered he hanswer hopen haccepted hlocal hpump =>
      exact Or.inr ⟨_, rfl, hpump.offer_eq.trans (Outgoing.forRelay_offer _)⟩
  | acked he hread hid hlive hstate hpump => exact Or.inr ⟨_, rfl, hpump.offer_eq⟩
  | pumped he hmoving hpump => exact Or.inr ⟨_, rfl, hpump.offer_eq⟩

theorem Serving.Truthful.step {s s' : State} {id : OfferId} {offer : Offer} {count : Nat}
    (h : Serving.Truthful P w₀ es s id offer count) (more : List SenderEvent)
    (hkept : ∀ o', s'.sending.get? id = some o' → ∃ o, s.sending.get? id = some o ∧
      o'.offer = o.offer) : Serving.Truthful P w₀ (es ++ more) s' id offer count where
  keyed := h.keyed
  bound := h.bound
  same := by
    intro o' hget'
    rcases hkept o' hget' with ⟨o, hget, hoffer⟩
    exact hoffer.trans (h.same o hget)
  sent := fun i hi => (h.sent i hi).append more

end Records

/-! ## Steps of a sender -/

namespace Sender

variable {P : Primitives} {w₀ : Sender} {es : List SenderEvent}

/-- A thread that has just started has sent nothing. -/
theorem listen_sent {w : Sender} {e : Event} {after : State} {id : OfferId} {r : Offer × Nat}
    (h : (w.listen e after id).sent? = some r) : (w.serving id).sent? = some r := by
  unfold listen at h
  split at h
  · split at h
    · cases h
    · exact h
  · exact h

theorem listen_sending {w : Sender} {e : Event} {after : State} {id : OfferId} {offer : Offer}
    {i : Nat} (h : w.listen e after id = .sending offer i) : w.serving id = .sending offer i := by
  unfold listen at h
  split at h
  · split at h
    · cases h
    · exact h
  · exact h

theorem own_truthful (h : Truthful P w₀ es (w₀.run P es)) {e : Event}
    (hserving : e.isServing = false)
    (hdraw : DrawsUnused (w₀.run P es) (.own e)) (hack : TellsTruth (w₀.run P es) (.own e)) :
    Truthful P w₀ (es ++ [.own e]) ((w₀.run P es).step P (.own e)).1 := by
  generalize hw : w₀.run P es = w at h hdraw hack
  have hstep : w.step P (.own e) =
      (⟨(w.state.step P e).1, w.listen e (w.state.step P e).1⟩, (w.state.step P e).2) := by
    simp only [step, hserving, Bool.false_eq_true, if_false]
  have hsends : ∀ id o', (w.state.step P e).1.sending.get? id = some o' →
      Sends P w.state e id (w.state.sending.get? id) (some o')
        (piecesOf id (w.state.step P e).2) := by
    intro id o' hget'
    have hsends := State.step_sends (P := P) h.keyed e id
    rw [hget'] at hsends
    exact hsends
  rw [hstep]
  refine ⟨State.step_wellKeyed h.keyed e, ?_, ?_, fun id offer i hsending =>
    h.busy id offer i (listen_sending hsending)⟩
  · intro id o' hget'
    refine (hsends id o' hget').truthful (fun o hget => (h.records id o hget).append _) hserving
      ?_ ?_ ?_
    · -- the pieces that go out in this step
      intro o hget draws o₁ hpump hoffer i hge hlt
      rcases hpump.piece_at hge hlt with ⟨m, hm, hpiece⟩
      rcases hpiece.pieceOf with ⟨data, -, hread⟩
      have hid : o.offer.offerId = id := h.keyed.1 id o hget
      have hindex : (UInt32.ofNat i).toNat = i := by
        have hfile := (hpump.window i hge hlt).1
        rw [UInt32.toNat_ofNat']
        apply Nat.mod_eq_of_lt
        exact lt_of_lt_of_le hfile (le_trans (min_le_right _ _) (Nat.sub_le _ _))
      refine Runs.Earlier.last (Or.inl ⟨o, m, _, ?_, rfl, ?_, hread, ?_, hindex⟩)
      · change (w₀.run P es).state.sending.get? o.offer.offerId = some o
        rw [hw, hid]
        exact hget
      · change m ∈ ((w₀.run P es).step P (.own e)).2
        rw [hw, hstep]
        exact (List.mem_filter.mp hm).1
      · exact congrArg Offer.offerId hoffer
    · rintro o hget body answer hanswer haccepted ⟨d, rfl⟩
      have hid : o.offer.offerId = id := h.keyed.1 id o hget
      refine Runs.Earlier.last (Or.inl ⟨answer.replyTo, .message .fileAnswer body d, rfl, ?_⟩)
      change ConsentsTo P o.offer answer.replyTo (w₀.run P es).state _
      rw [hw]
      exact hanswer.consents hget hid haccepted
    · intro o hget body ack d he hread hid hlive hcorrupt
      subst he
      rw [← hid] at hget
      exact hack ack o hread hget hlive hcorrupt
  · intro id offer count hsent
    have hserves := listen_sent hsent
    refine (h.threads id offer count hserves).step _ ?_
    intro o' hget'
    rcases (hsends id o' hget').offer_kept with hoffers | hkept
    · -- no id is drawn while a thread sends its offer
      rw [(hdraw id hoffers).2] at hserves
      cases hserves
    · exact hkept

/-- A step of a thread that keeps the records truthful, and leaves a truthful thread. -/
theorem Truthful.serve {w : Sender} (h : Truthful P w₀ es w) {e : SenderEvent} {id : OfferId}
    {s : State} {t : Serving} (hkeyed : s.WellKeyed)
    (hkept : ∀ j o', s.sending.get? j = some o' → ∃ o, w.state.sending.get? j = some o ∧
      o'.offer = o.offer)
    (hrecords : ∀ j o', s.sending.get? j = some o' → o'.Truthful P w₀ (es ++ [e]))
    (hthread : ∀ offer count, t.sent? = some (offer, count) →
      Serving.Truthful P w₀ (es ++ [e]) s id offer count)
    (hbusy : ∀ offer i, t = .sending offer i → i < totalPieces offer) :
    Truthful P w₀ (es ++ [e]) ⟨s, Function.update w.serving id t⟩ where
  keyed := hkeyed
  records := hrecords
  busy := by
    intro j offer i hsending
    by_cases hj : j = id
    · change (Function.update w.serving id t) j = _ at hsending
      rw [hj, Function.update_self] at hsending
      exact hbusy offer i hsending
    · change (Function.update w.serving id t) j = _ at hsending
      rw [Function.update_of_ne hj] at hsending
      exact h.busy j offer i hsending
  threads := by
    intro j offer count hsent
    by_cases hj : j = id
    · rw [hj] at hsent ⊢
      change ((Function.update w.serving id t) id).sent? = _ at hsent
      rw [Function.update_self] at hsent
      exact hthread offer count hsent
    · change ((Function.update w.serving id t) j).sent? = _ at hsent
      rw [Function.update_of_ne hj] at hsent
      exact (h.threads j offer count hsent).step [e] (hkept j)

/-- A step of a thread that leaves the transfers alone. -/
theorem Truthful.quiet {w : Sender} (h : Truthful P w₀ es w) {e : SenderEvent} {id : OfferId}
    {t : Serving} (hthread : ∀ offer count, t.sent? = some (offer, count) →
      Serving.Truthful P w₀ (es ++ [e]) w.state id offer count)
    (hbusy : ∀ offer i, t = .sending offer i → i < totalPieces offer) :
    Truthful P w₀ (es ++ [e]) ⟨w.state, Function.update w.serving id t⟩ :=
  h.serve h.keyed (fun _ o hget => ⟨o, hget, rfl⟩) (fun j o hget => (h.records j o hget).append _)
    hthread hbusy

/-- A step of a thread that calls the transfers. -/
theorem Truthful.call {w : Sender} (h : Truthful P w₀ es w) {e : SenderEvent} {id : OfferId}
    {t : Serving} {call : Event} (hserving : call.isServing = true)
    (hbegin : ∀ j o now, w.state.sending.get? j = some o → call = .directBegin j now →
      o.stage = .offered → Agreed P w₀ (es ++ [e]) o.offer)
    (hprogress : ∀ j o sent now, w.state.sending.get? j = some o →
      call = .directProgress j sent now → ∀ i < sent, PieceSent P w₀ (es ++ [e]) o.offer i)
    (hdone : ∀ j o, w.state.sending.get? j = some o → call = .directFinished j .done →
      ∀ i < o.offer.chunkCount, PieceSent P w₀ (es ++ [e]) o.offer i)
    (hthread : ∀ offer count, t.sent? = some (offer, count) →
      Serving.Truthful P w₀ (es ++ [e]) (w.state.step P call).1 id offer count)
    (hbusy : ∀ offer i, t = .sending offer i → i < totalPieces offer) :
    Truthful P w₀ (es ++ [e]) ⟨(w.state.step P call).1, Function.update w.serving id t⟩ := by
  have hsends : ∀ j o', (w.state.step P call).1.sending.get? j = some o' →
      Sends P w.state call j (w.state.sending.get? j) (some o')
        (piecesOf j (w.state.step P call).2) := by
    intro j o' hget'
    have hsends := State.step_sends (P := P) h.keyed call j
    rw [hget'] at hsends
    exact hsends
  refine h.serve (State.step_wellKeyed h.keyed call) ?_ ?_ hthread hbusy
  · intro j o' hget'
    rcases (hsends j o' hget').offer_kept with hoffered | hkept
    · -- no thread offers anything
      cases call <;> first | exact hoffered.elim | cases hserving
    · exact hkept
  · intro j o' hget'
    exact (hsends j o' hget').truthful_serving (fun o hget => (h.records j o hget).append _)
      hserving (fun o hget now => hbegin j o now hget)
      (fun o hget sent now => hprogress j o sent now hget) (fun o hget => hdone j o hget)

/-- A record keeps its offer through a call of a thread. -/
theorem step_serving_kept {w : Sender} (h : Truthful P w₀ es w) {call : Event}
    (hserving : call.isServing = true) (id : OfferId) (o' : Outgoing)
    (hget' : (w.state.step P call).1.sending.get? id = some o') :
    ∃ o, w.state.sending.get? id = some o ∧ o'.offer = o.offer := by
  have hsends := State.step_sends (P := P) h.keyed call id
  rw [hget'] at hsends
  rcases hsends.offer_kept with hoffered | hkept
  · cases call <;> first | exact hoffered.elim | cases hserving
  · exact hkept

theorem directBegin_some {s : State} {id : OfferId} {now : Instant} {path : Path} {offer : Offer}
    (h : (s.directBegin id now).2 = some (path, offer)) :
    ∃ o, s.sending.get? id = some o ∧ o.stage = .offered ∧ o.offer = offer ∧
      (s.directBegin id now).1.sending.get? id =
        some { o with stage := .moving 0, moved := now, direct := true } := by
  unfold State.directBegin at h ⊢
  cases hget : s.sending.get? id with
  | none => rw [hget] at h; cases h
  | some o =>
      rw [hget] at h
      simp only at h ⊢
      split at h
      · cases h
      · rename_i hoffered
        cases h
        rw [if_neg hoffered]
        exact ⟨o, rfl, not_not.mp hoffered, rfl, by rw [Table.get?_insert, if_pos rfl]⟩

theorem serve_truthful (h : Truthful P w₀ es (w₀.run P es)) (id : OfferId) (v : Serve) :
    Truthful P w₀ (es ++ [.serve id v]) ((w₀.run P es).step P (.serve id v)).1 := by
  generalize hw : w₀.run P es = w at h
  -- a thread that stays where it is
  have hsame : Truthful P w₀ (es ++ [.serve id v])
      ⟨w.state, Function.update w.serving id (w.serving id)⟩ :=
    h.quiet (fun offer count hsent => (h.threads id offer count hsent).step [.serve id v]
      fun o hget => ⟨o, hget, rfl⟩) (h.busy id)
  have hquit : Truthful P w₀ (es ++ [.serve id v])
      ⟨w.state, Function.update w.serving id .over⟩ :=
    h.quiet (fun _ _ hsent => nomatch hsent) (fun _ _ hsending => nomatch hsending)
  have hfailed : ∀ reason, Truthful P w₀ (es ++ [.serve id v])
      ⟨w.state.directFailed id reason, Function.update w.serving id .over⟩ := by
    intro reason
    have hserving : (Event.directFailed id reason).isServing = true := rfl
    exact h.call hserving (fun _ _ _ _ heq => nomatch heq) (fun _ _ _ _ _ heq => nomatch heq)
      (fun _ _ _ heq => nomatch heq) (fun _ _ hsent => nomatch hsent)
      (fun _ _ hsending => nomatch hsending)
  have hstep : (w.step P (.serve id v)).1 =
      ⟨((w.serving id).step id w.state v).1,
        Function.update w.serving id ((w.serving id).step id w.state v).2.1⟩ := rfl
  rw [hstep]
  cases ht : w.serving id with
  | «over» => rw [ht] at hsame; exact hsame
  | listening =>
      cases v with
      | greeted now =>
          have hserving : (Event.directBegin id now).isServing = true := rfl
          have hreached : ∀ j o now', w.state.sending.get? j = some o →
              Event.directBegin id now = .directBegin j now' → o.stage = .offered →
              Agreed P w₀ (es ++ [.serve id (.greeted now)]) o.offer := by
            intro j o now' hget heq hoffered
            cases heq
            have hid : o.offer.offerId = id := h.keyed.1 id o hget
            refine Runs.Earlier.last (Or.inr ⟨now, o, ?_, ?_, ?_, rfl, hoffered⟩)
            · rw [hid]
            · change (w₀.run P es).serving o.offer.offerId = .listening
              rw [hw, hid, ht]
            · change (w₀.run P es).state.sending.get? o.offer.offerId = some o
              rw [hw, hid, hget]
          simp only [Serving.step]
          split
          · exact h.call hserving hreached (fun _ _ _ _ _ heq => nomatch heq)
              (fun _ _ _ heq => nomatch heq) (fun _ _ hsent => nomatch hsent)
              (fun _ _ hsending => nomatch hsending)
          · rename_i path offer hbegun
            rcases directBegin_some hbegun with ⟨o, hget, -, hoffer, hget'⟩
            refine h.call hserving hreached (fun _ _ _ _ _ heq => nomatch heq)
              (fun _ _ _ heq => nomatch heq) ?_ ?_
            · intro offer' count hsent
              rw [Serving.sent?_loop offer 0 (Nat.zero_le _)] at hsent
              cases hsent
              refine ⟨?_, Nat.zero_le _, ?_, fun i hi => absurd hi (Nat.not_lt_zero i)⟩
              · rw [← hoffer]
                exact h.keyed.1 id o hget
              · intro o' ho'
                have hsame' := Option.some.inj (hget'.symm.trans ho')
                rw [← hsame']
                exact hoffer
            · exact fun offer' i hsending => Serving.loop_sending hsending
      | stopListening => exact hquit
      | piece _ _ | progress _ | lastWord _ => rw [ht] at hsame; exact hsame
  | sending offer index =>
      have hsending : (w.serving id).sent? = some (offer, index) := by rw [ht]; rfl
      cases v with
      | piece data wrote =>
          cases data with
          | error err => exact hfailed _
          | ok data =>
              simp only [Serving.step]
              split
              · rw [ht] at hsame
                exact hsame
              rename_i hlen
              cases hwrote : wrote with
              | false =>
                  rw [hwrote] at hfailed
                  exact hfailed _
              | true =>
                  -- the frame is on the stream
                  have hpiece : PieceSent P w₀ (es ++ [.serve id (.piece (.ok data) wrote)]) offer
                      index := by
                    have hid : offer.offerId = id := (h.threads id offer index hsending).keyed
                    refine Runs.Earlier.last (Or.inr ⟨.piece (.ok data) wrote, data, ?_, ?_, ?_⟩)
                    · rw [hid]
                    · change (w₀.run P es).serving offer.offerId = .sending offer index
                      rw [hw, hid, ht]
                    · change (((w₀.run P es).serving offer.offerId).step offer.offerId
                        (w₀.run P es).state _).2.2 = some data
                      rw [hw, hid, ht, hwrote]
                      simp only [Serving.step, if_neg hlen]
                      rfl
                  rw [hwrote] at hpiece
                  refine h.quiet ?_ (fun _ _ hsending => nomatch hsending)
                  intro offer' count hsent
                  cases hsent
                  have hbefore := (h.threads id offer index hsending).step
                    [.serve id (.piece (.ok data) true)] fun o hget => ⟨o, hget, rfl⟩
                  refine ⟨hbefore.keyed, h.busy id offer index ht, hbefore.same, ?_⟩
                  intro i hi
                  rcases Nat.lt_or_ge i index with hlt | hge
                  · exact hbefore.sent i hlt
                  · have hi' : i = index := le_antisymm (Nat.lt_succ_iff.mp hi) hge
                    rw [hi']
                    exact hpiece
      | stopListening | greeted _ | progress _ | lastWord _ => rw [ht] at hsame; exact hsame
  | written offer index =>
      have hwritten : (w.serving id).sent? = some (offer, index + 1) := by rw [ht]; rfl
      cases v with
      | progress now =>
          have hbefore := h.threads id offer (index + 1) hwritten
          have hserving : (Event.directProgress id (index + 1) now).isServing = true := rfl
          have hprogress : ∀ j o sent now', w.state.sending.get? j = some o →
              Event.directProgress id (index + 1) now = .directProgress j sent now' →
              ∀ i < sent, PieceSent P w₀ (es ++ [.serve id (.progress now)]) o.offer i := by
            intro j o sent now' hget heq i hi
            cases heq
            rw [hbefore.same o hget]
            exact (hbefore.sent i hi).append _
          simp only [Serving.step]
          split
          · refine h.call hserving (fun _ _ _ _ heq => nomatch heq) hprogress
              (fun _ _ _ heq => nomatch heq) ?_ ?_
            · intro offer' count hsent
              rw [Serving.sent?_loop offer (index + 1) hbefore.bound] at hsent
              cases hsent
              exact hbefore.step _ (step_serving_kept h hserving id)
            · exact fun offer' i hsending => Serving.loop_sending hsending
          · exact h.call hserving (fun _ _ _ _ heq => nomatch heq) hprogress
              (fun _ _ _ heq => nomatch heq) (fun _ _ hsent => nomatch hsent)
              (fun _ _ hsending => nomatch hsending)
      | stopListening | greeted _ | piece _ _ | lastWord _ => rw [ht] at hsame; exact hsame
  | confirming offer =>
      have hconfirming : (w.serving id).sent? = some (offer, totalPieces offer) := by rw [ht]; rfl
      cases v with
      | lastWord ended =>
          cases ended with
          | none => exact hfailed _
          | some ended =>
              have hbefore := h.threads id offer _ hconfirming
              have hserving : (Event.directFinished id ended).isServing = true := rfl
              refine h.call hserving (fun _ _ _ _ heq => nomatch heq)
                (fun _ _ _ _ _ heq => nomatch heq) ?_ (fun _ _ hsent => nomatch hsent)
                (fun _ _ hsending => nomatch hsending)
              intro j o hget heq i hi
              cases heq
              have hoffer := hbefore.same o hget
              rw [← (h.records id o hget).whole] at hi
              rw [hoffer] at hi ⊢
              exact (hbefore.sent i hi).append _
      | stopListening | greeted _ | piece _ _ | progress _ => rw [ht] at hsame; exact hsame

/-! ## Runs -/

theorem start_truthful (devices : Registry) (disk : Disk) :
    Truthful P (start devices disk) [] (start devices disk) where
  keyed := State.default_wellKeyed devices disk
  records := fun _ _ hget => nomatch hget
  threads := fun _ _ _ hsent => nomatch hsent
  busy := fun _ _ _ hsending => nomatch hsending

theorem run_truthful (devices : Registry) (disk : Disk) (es : List SenderEvent)
    (hdraw : Runs.Along (fun w e => (Sender.step P w e).1) DrawsUnused (start devices disk) es)
    (hack : Runs.Along (fun w e => (Sender.step P w e).1) TellsTruth (start devices disk) es) :
    Truthful P (start devices disk) es ((start devices disk).run P es) := by
  refine Runs.history_along (fun w e => (Sender.step P w e).1)
    (Truthful P (start devices disk)) ?_ (start_truthful devices disk) es (hdraw.and hack)
  rintro past e h ⟨hdraw, hack⟩
  cases e with
  | serve id v => exact serve_truthful h id v
  | own e =>
      cases hserving : e.isServing with
      | false => exact own_truthful h hserving hdraw hack
      | true =>
          -- only the threads make these calls
          have hsame : (Sender.step P (past.foldl (fun w e => (Sender.step P w e).1)
              (start devices disk)) (.own e)).1 =
              past.foldl (fun w e => (Sender.step P w e).1) (start devices disk) := by
            simp only [Sender.step, hserving, if_true]
          rw [hsame]
          exact {
            keyed := h.keyed
            records := fun id o hget => (h.records id o hget).append [.own e]
            threads := fun id offer count hsent => (h.threads id offer count hsent).step [.own e]
              fun o hget => ⟨o, hget, rfl⟩
            busy := h.busy }

/-- In every run in which no id is drawn twice and every acknowledgement tells the truth, each
sending transfer shows the truth. -/
theorem shows_truth (P : Primitives) (devices : Registry) (disk : Disk) (es : List SenderEvent)
    (hdraw : Runs.Along (fun w e => (Sender.step P w e).1) DrawsUnused (start devices disk) es)
    (hack : Runs.Along (fun w e => (Sender.step P w e).1) TellsTruth (start devices disk) es)
    (id : OfferId) (o : Outgoing)
    (hget : ((start devices disk).run P es).state.sending.get? id = some o) :
    o.ShowsTruth P (start devices disk) es :=
  ((run_truthful devices disk es hdraw hack).records id o hget).toShowsTruth

end Sender

/-! ## An acknowledgement before any answer

The file is offered, and an acknowledgement of its one piece comes from some device of the room. -/

namespace OneFile

def offering : List SenderEvent :=
  offered.map .own

def answered : List SenderEvent :=
  offering ++ [SenderEvent.own (accepted true)]

def acknowledged : List SenderEvent :=
  offering ++ [SenderEvent.own (.message .fileAck (Ack.encode ⟨file, 1, .receiving⟩) (draws true))]

/-- A run that ends with a message draws one id, once. -/
theorem offering_unused (kind : Crypto.Kind) (body : Bytes) (d : MessageDraws) :
    Runs.Along (fun w e => (Sender.step primitives w e).1) DrawsUnused
      (Sender.start OneFile.devices Table.empty)
      (offering ++ [SenderEvent.own (Event.message kind body d)]) := by
  refine ⟨nofun, nofun, ?_, nofun, trivial⟩
  intro id hoffers
  cases hoffers
  exact ⟨by decide +kernel, rfl⟩

end OneFile

open OneFile in
/-- The transfer after a signed acceptance shows the truth. -/
theorem Sender.accepted_shows_truth :
    ∃ o, ((Sender.start OneFile.devices Table.empty).run primitives answered).state.sending.get?
      file = some o ∧
        o.ShowsTruth primitives (Sender.start OneFile.devices Table.empty) answered := by
  have hlisted : (((Sender.start OneFile.devices Table.empty).run primitives
      answered).state.sending.get? file).isSome = true := by
    decide +kernel
  rcases Option.isSome_iff_exists.mp hlisted with ⟨o, hget⟩
  refine ⟨o, hget, ?_⟩
  refine Sender.shows_truth primitives OneFile.devices Table.empty answered ?_ ?_ file o hget
  · exact offering_unused .fileAnswer acceptance (draws true)
  · exact ⟨trivial, trivial, trivial, trivial, trivial⟩

open OneFile in
/-- The transfer after an acknowledgement nobody signed moves, and nobody agreed to it. -/
theorem Sender.acknowledged_unanswered :
    ¬ ∀ (P : Primitives) (devices : Registry) (disk : Disk) (es : List SenderEvent),
      Runs.Along (fun w e => (Sender.step P w e).1) DrawsUnused (start devices disk) es →
      ∀ id o, ((start devices disk).run P es).state.sending.get? id = some o →
        o.ShowsTruth P (start devices disk) es := by
  intro hclaim
  have hmoving : (((Sender.start OneFile.devices Table.empty).run primitives
      acknowledged).state.sending.get? file).map Outgoing.stage = some (.moving 1) := by
    decide +kernel
  rcases Option.map_eq_some_iff.mp hmoving with ⟨o, hget, hstage⟩
  have hunused := offering_unused .fileAck (Ack.encode ⟨file, 1, .receiving⟩) (draws true)
  have hshows := hclaim primitives OneFile.devices Table.empty acknowledged hunused file o hget
  rcases hshows.agreed (Or.inl ⟨1, hstage⟩) with ⟨past, e, rest, heq, hagreed⟩
  have hmem : e ∈ acknowledged := by
    rw [heq]
    exact List.mem_append_right past List.mem_cons_self
  -- no event of the run is an answer or a direct connection
  have hnone : ∀ e ∈ acknowledged, ∀ (offer : Offer) (w : Sender),
      ¬(Accepts primitives offer w e ∨ Reaches offer w e) := by
    intro e he offer w
    simp only [acknowledged, offering, offered, List.map_cons, List.map_nil, List.cons_append,
      List.nil_append, List.mem_cons, List.not_mem_nil, or_false] at he
    rcases he with rfl | rfl | rfl | rfl
    all_goals
      rintro (⟨conn, own, hown, hconsents⟩ | ⟨now, o, hserve, -⟩)
      · cases hown
        exact hconsents
      · cases hserve
  exact hnone e hmem _ _ hagreed

end App
end Asli
