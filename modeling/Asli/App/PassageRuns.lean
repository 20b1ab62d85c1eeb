import Asli.App.PassageSteps
import Asli.App.Pieces
import Asli.App.Progress

/-!
# PassageRuns — one file between two devices over whole runs

* `Passage.kept_as_sent` — no more is acknowledged than was received, no more is received than was
  sent, and a file that is kept is the one that was offered.
* `Passage.done_is_kept` — what the sender shows as done, the receiver kept.
-/

namespace Asli
namespace App

open Logic
open Crypto (Primitives Kind OfferId Offer Answer Chunk Ack AckState)
open Net (LocalEvent)

namespace Passage

variable {P : Primitives} {offer : Offer} {id : OfferId} {w : Passage}

/-- The record of the sender, and that of the receiver. -/
def outgoing (id : OfferId) (w : Passage) : Option Outgoing :=
  w.sender.sending.get? id

def incoming (id : OfferId) (w : Passage) : Option Incoming :=
  w.receiver.receiving.get? id

/-- What holds of two devices and of all that is between them. -/
structure Sound (P : Primitives) (offer : Offer) (id : OfferId) (w : Passage) : Prop where
  senderKeyed : w.sender.WellKeyed
  receiverKeyed : w.receiver.WellKeyed
  sender : SenderSide P offer w.stream w.relayed w.fetching (w.incoming id) (w.outgoing id)
  receiver : ReceiverSide P offer w.stream w.relayed w.read w.fetching (w.incoming id)
  serving : ServingAt offer w.stream.length w.serving
  carried : w.serving.sent? ≠ none ∨ w.stream ≠ [] → ∀ o, w.outgoing id = some o →
    o.direct = true ∨ Settled w.fetching (w.incoming id)
  pieces : Logged id w.relayed w.toReceiver
  offered : ∀ body to_ token, .message .fileOffer body to_ token ∉ w.toReceiver
  replies : Truthful P offer id w.stream w.relayed w.fetching (w.incoming id) w.toSender
  word : w.word = some .done → Kept P offer w.stream w.relayed (w.incoming id)

/-! ## What carries over -/

theorem Logged.mono {relayed : List Bytes} {out out' : List LocalEvent}
    (h : Logged id relayed out) (hsub : ∀ m ∈ out', m ∈ out) : Logged id relayed out' :=
  fun m hm => h m (hsub m hm)

theorem Logged.append {relayed : List Bytes} {out : List LocalEvent} (h : Logged id relayed out)
    (more : List Bytes) : Logged id (relayed ++ more) out := by
  intro m hm c hc hid
  have hat := h m hm c hc hid
  rw [List.getElem?_append_left (List.getElem?_eq_some_iff.mp hat).1]
  exact hat

theorem Truthful.mono {stream relayed : List Bytes} {fetching : Fetching} {y : Option Incoming}
    {out out' : List LocalEvent} (h : Truthful P offer id stream relayed fetching y out)
    (hsub : ∀ m ∈ out', m ∈ out) : Truthful P offer id stream relayed fetching y out' :=
  fun m hm => h m (hsub m hm)

/-- What was said of a receiver stays so as pieces are sent and the receiver goes on. -/
theorem Truthful.follow {stream stream' relayed relayed' : List Bytes}
    {fetching fetching' : Fetching} {y y' : Option Incoming} {out : List LocalEvent}
    (h : Truthful P offer id stream relayed fetching y out)
    (hreached : ∀ n, Reached relayed y n → Reached relayed' y' n)
    (hkept : Kept P offer stream relayed y → Kept P offer stream' relayed' y')
    (hsettled : Settled fetching y → Settled fetching' y') :
    Truthful P offer id stream' relayed' fetching' y' out := by
  intro m hm
  rcases h m hm with ⟨hacks, hanswers⟩
  refine ⟨?_, fun a ha hid => hsettled (hanswers a ha hid)⟩
  intro a ha hid
  rcases hacks a ha hid with ⟨hcount, hdone⟩
  exact ⟨hreached _ hcount, fun hstate => hkept (hdone hstate)⟩

theorem SenderSide.follow {stream relayed : List Bytes} {fetching fetching' : Fetching}
    {y y' : Option Incoming} {x : Option Outgoing}
    (h : SenderSide P offer stream relayed fetching y x)
    (hreached : ∀ n, Reached relayed y n → Reached relayed y' n)
    (hkept : Kept P offer stream relayed y → Kept P offer stream relayed y')
    (hsettled : Settled fetching y → Settled fetching' y') :
    SenderSide P offer stream relayed fetching' y' x where
  offer_eq := h.offer_eq
  waiting := h.waiting
  addressed := h.addressed
  settled := fun o ho hsome => hsettled (h.settled o ho hsome)
  relays := by
    intro o ho hrelay
    rcases h.relays o ho hrelay with ⟨hnext, hacked⟩
    exact ⟨hnext, hreached _ hacked⟩
  streams := h.streams
  done := fun o path ho hstage => hkept (h.done o path ho hstage)
  few := h.few

/-- The thread writes to the stream. -/
theorem SenderSide.stream_append {stream relayed : List Bytes} {fetching : Fetching}
    {y : Option Incoming} {x : Option Outgoing}
    (h : SenderSide P offer stream relayed fetching y x) (more : List Bytes) :
    SenderSide P offer (stream ++ more) relayed fetching y x where
  offer_eq := h.offer_eq
  waiting := h.waiting
  addressed := h.addressed
  settled := h.settled
  relays := h.relays
  streams := by
    intro o ho hstream
    rcases h.streams o ho hstream with ⟨hempty, hnext, hacked⟩
    rw [List.length_append]
    exact ⟨hempty, Nat.le_add_right_of_le hnext, Nat.le_add_right_of_le hacked⟩
  done := by
    intro o path ho hstage
    rcases h.done o path ho hstage with ⟨hwhole, hkept⟩
    exact ⟨hwhole.imp_left fun hw => hw.append more, hkept⟩
  few := h.few

theorem Reached.follow {relayed : List Bytes} {y y' : Option Incoming}
    (hfollows : ∀ i', y' = some i' → ∃ i, y = some i ∧ Follows i i') (n : Nat)
    (h : Reached relayed y n) : Reached relayed y' n := by
  refine ⟨h.1, ?_⟩
  intro i' hi'
  rcases hfollows i' hi' with ⟨i, hi, hf⟩
  exact (h.2 i hi).trans hf.received

theorem Kept.follow {stream relayed : List Bytes} {y y' : Option Incoming}
    (hfollows : ∀ i', y' = some i' → ∃ i, y = some i ∧ Follows i i')
    (h : Kept P offer stream relayed y) : Kept P offer stream relayed y' := by
  refine ⟨h.1, ?_⟩
  intro i' hi'
  rcases hfollows i' hi' with ⟨i, hi, hf⟩
  exact hf.kept (h.2 i hi)

theorem Settled.follow {fetching : Fetching} {y y' : Option Incoming}
    (hfollows : ∀ i', y' = some i' → ∃ i, y = some i ∧ Follows i i')
    (h : Settled fetching y) : Settled fetching y' := by
  refine ⟨h.1, ?_⟩
  intro i' hi'
  rcases hfollows i' hi' with ⟨i, hi, hf⟩
  rcases h.2 i hi with ⟨hdirect, hpast⟩
  exact ⟨hf.direct.trans hdirect, fun hoffered => hpast (hf.waiting hoffered)⟩

/-- The messages of some kinds are of the queue. -/
theorem mem_ofKinds {kinds : List Kind} {out : List LocalEvent} {m : LocalEvent}
    (h : m ∈ ofKinds kinds out) : m ∈ out :=
  (List.mem_filter.mp h).1

/-- A message with a piece of a file is one of its pieces. -/
theorem mem_piecesOf_of_pieceOf {out : List LocalEvent} {m : LocalEvent} (hm : m ∈ out) {c : Chunk}
    (hc : pieceOf? m = some c) (hid : c.offerId = id) : m ∈ piecesOf id out := by
  have hchunk : isChunk m = true := by
    unfold pieceOf? at hc
    split at hc
    · rfl
    · cases hc
  refine List.mem_filter.mpr ⟨hm, ?_⟩
  rw [hchunk, hc, Option.all_some, Bool.true_and]
  exact decide_eq_true hid

/-- A message with a reply about a file is one of its replies. -/
theorem mem_repliesOf {out : List LocalEvent} {m : LocalEvent} (hm : m ∈ out)
    (h : IsReply id m = true) : m ∈ repliesOf id out :=
  List.mem_filter.mpr ⟨hm, h⟩

theorem Truthful.of_replies {stream relayed : List Bytes} {fetching : Fetching}
    {y : Option Incoming} {out : List LocalEvent}
    (h : Truthful P offer id stream relayed fetching y (repliesOf id out)) :
    Truthful P offer id stream relayed fetching y out := by
  intro m hm
  constructor
  · intro a ha hid
    have hreply : IsReply id m = true := by
      rw [IsReply, ha, Option.any_some, decide_eq_true hid, Bool.true_or]
    exact (h m (mem_repliesOf hm hreply)).1 a ha hid
  · intro a ha hid
    have hreply : IsReply id m = true := by
      rw [IsReply, ha, Option.any_some, decide_eq_true hid, Bool.or_true]
    exact (h m (mem_repliesOf hm hreply)).2 a ha hid

theorem Truthful.append {stream relayed : List Bytes} {fetching : Fetching}
    {y : Option Incoming} {out more : List LocalEvent}
    (h : Truthful P offer id stream relayed fetching y out)
    (hmore : Truthful P offer id stream relayed fetching y more) :
    Truthful P offer id stream relayed fetching y (out ++ more) := by
  intro m hm
  rcases List.mem_append.mp hm with hm | hm
  · exact h m hm
  · exact hmore m hm

/-! ## The sender's events -/

/-- An event of the sender that heeds what the receiver says. -/
theorem Sound.sent (h : Sound P offer id w) (hid : offer.offerId = id) {e : Event}
    (hheeds : Heeds P offer w.stream w.relayed w.fetching (w.incoming id) w.sender id e) :
    Sound P offer id (w.sent id (w.sender.step P e)) := by
  have hsends := State.step_sends (P := P) h.senderKeyed e id
  rcases h.sender.sends hsends hid hheeds with ⟨hside, hlogged, hmore, hdirect⟩
  have hsettled := fun hs : Settled w.fetching (w.incoming id) => hs
  exact {
    senderKeyed := State.step_wellKeyed h.senderKeyed e
    receiverKeyed := h.receiverKeyed
    sender := hside
    receiver := h.receiver.relayed_append hmore
    serving := h.serving
    carried := by
      intro hgone o' ho'
      rcases hdirect o' ho' with ⟨o, ho, hkeeps⟩
      rcases h.carried hgone o ho with hd | hs
      · exact hkeeps hd
      · exact .inr hs
    pieces := by
      intro m hm c hc hcid
      rcases List.mem_append.mp hm with hold | hnew
      · exact h.pieces.append _ m hold c hc hcid
      · exact hlogged m (mem_piecesOf_of_pieceOf (mem_ofKinds hnew) hc hcid) c hc hcid
    offered := by
      intro body to_ token hm
      rcases List.mem_append.mp hm with hold | hnew
      · exact h.offered body to_ token hold
      · have hkind := of_decide_eq_true (List.mem_filter.mp hnew).2
        rcases List.mem_pair.mp hkind with hchunk | hcancel
        · cases hchunk
        · cases hcancel
    replies := h.replies.follow (fun n hn => hn.append _) (fun hk => hk.relayed_append _) hsettled
    word := fun hword => (h.word hword).relayed_append _ }

/-- What the sender takes from elsewhere is not about the file. -/
theorem heeds_apart {stream relayed : List Bytes} {fetching : Fetching} {y : Option Incoming}
    {s : State} {e : Event} (h : e.Apart P s id) :
    Heeds P offer stream relayed fetching y s id e where
  offers := h.offers
  acks := by
    rintro body d a rfl hdecode hid
    exact absurd hid (h.elsewhere a hdecode)
  answers := by
    rintro body d a rfl hread hid
    exact absurd hid (h.elsewhere a hread)
  progress := by
    rintro count now rfl
    exact absurd rfl h.calls
  finished := by
    rintro rfl
    exact absurd rfl h.calls

/-- What the receiver says of itself is heeded. -/
theorem heeds_reply {stream relayed : List Bytes} {fetching : Fetching} {y : Option Incoming}
    {s : State} {out : List LocalEvent}
    (h : Truthful P offer id stream relayed fetching y out) {kind : Kind} {body : Bytes}
    {to_ : Option String} {token : Option UInt64} (hm : .message kind body to_ token ∈ out)
    (d : MessageDraws) : Heeds P offer stream relayed fetching y s id (.message kind body d) where
  offers := fun h => h
  acks := by
    rintro body' d' a ⟨⟩ hdecode hid
    refine (h _ hm).1 a ?_ hid
    rw [ackOf?, hdecode]
    rfl
  answers := by
    rintro body' d' a ⟨⟩ hread hid
    rcases State.readAnswer_ok hread with ⟨link, pinned, -, -, hdecode⟩
    rcases Result.bind_ok hdecode with ⟨done, -, hunsigned⟩
    refine (h _ hm).2 a ?_ hid
    rw [answerOf?, hunsigned]
    rfl
  progress := by rintro count now ⟨⟩
  finished := by rintro ⟨⟩

/-! ## The sender's thread -/

/-- A call of the thread, and where it leaves the thread. -/
theorem Sound.call (h : Sound P offer id w) (hid : offer.offerId = id) {e : Event} {t : Serving}
    (hquiet : (w.sender.step P e).2 = [])
    (hheeds : Heeds P offer w.stream w.relayed w.fetching (w.incoming id) w.sender id e)
    (hserving : ServingAt offer w.stream.length t)
    (hcarried : t.sent? ≠ none ∨ w.stream ≠ [] → ∀ o,
      (w.sender.step P e).1.sending.get? id = some o →
        o.direct = true ∨ Settled w.fetching (w.incoming id)) :
    Sound P offer id { w with sender := (w.sender.step P e).1, serving := t } := by
  have hsent := h.sent hid hheeds
  have hnothing : w.sent id (w.sender.step P e) = { w with sender := (w.sender.step P e).1 } := by
    rw [Passage.sent, hquiet]
    simp [ofKinds, pieceData]
  rw [hnothing] at hsent
  exact { hsent with serving := hserving, carried := hcarried }

/-- The thread goes on without a call. -/
theorem Sound.thread (h : Sound P offer id w) {t : Serving} (more : List Bytes)
    (hserving : ServingAt offer (w.stream ++ more).length t)
    (hcarried : t.sent? ≠ none ∨ w.stream ++ more ≠ [] → ∀ o, w.outgoing id = some o →
      o.direct = true ∨ Settled w.fetching (w.incoming id)) :
    Sound P offer id { w with serving := t, stream := w.stream ++ more } where
  senderKeyed := h.senderKeyed
  receiverKeyed := h.receiverKeyed
  sender := h.sender.stream_append more
  receiver := h.receiver.stream_append more
  serving := hserving
  carried := hcarried
  pieces := h.pieces
  offered := h.offered
  replies := h.replies.follow (fun _ hn => hn)
    (fun hk => ⟨hk.1.imp_left fun hw => hw.append more, hk.2⟩) fun hs => hs
  word := by
    intro hword
    rcases h.word hword with ⟨hwhole, hkept⟩
    exact ⟨hwhole.imp_left fun hw => hw.append more, hkept⟩

theorem servingAt_loop {index : Nat} (h : index ≤ totalPieces offer) :
    ServingAt offer index (Serving.loop offer index) := by
  unfold Serving.loop
  split
  · rename_i hlt
    exact ⟨rfl, rfl, hlt⟩
  · rename_i hend
    exact ⟨rfl, by omega⟩

/-- The stream holds no more pieces than the file has. -/
theorem ServingAt.le {count : Nat} {t : Serving} (h : ServingAt offer count t) :
    count ≤ totalPieces offer := by
  cases t with
  | «over» => exact h
  | listening =>
      rw [show count = 0 from h]
      exact Nat.zero_le _
  | sending f index => exact h.2.1.le.trans h.2.2.le
  | written f index => exact h.2.1.le.trans h.2.2
  | confirming f => exact h.2.le

/-- A call that reports no more than is on the stream, and no end that did not come. -/
theorem heeds_call {stream relayed : List Bytes} {fetching : Fetching} {y : Option Incoming}
    {s : State} {e : Event} (hoffers : ¬ e.Offers id)
    (hmessage : ∀ kind body d, e ≠ .message kind body d)
    (hprogress : ∀ count now, e = .directProgress id count now → count ≤ stream.length)
    (hfinished : e = .directFinished id .done → Kept P offer stream relayed y) :
    Heeds P offer stream relayed fetching y s id e where
  offers := hoffers
  acks := fun body d _ he => absurd he (hmessage _ body d)
  answers := fun body d _ he => absurd he (hmessage _ body d)
  progress := hprogress
  finished := hfinished

theorem Sound.serve (h : Sound P offer id w) (hid : offer.offerId = id) (v : Serve) :
    Sound P offer id (w.step P id (.serve v)) := by
  rw [step]
  split
  case isFalse => exact h
  rename_i hheard
  have hfailed : ∀ why, Sound P offer id
      { w with sender := w.sender.directFailed id why, serving := .over } := by
    intro why
    have hheeds : Heeds P offer w.stream w.relayed w.fetching (w.incoming id) w.sender id
        (.directFailed id why) := by
      refine heeds_call (fun h => h) ?_ ?_ ?_
      · rintro kind body d ⟨⟩
      · rintro count later ⟨⟩
      · rintro ⟨⟩
    have hsends := State.step_sends (P := P) h.senderKeyed (.directFailed id why) id
    refine h.call hid rfl hheeds h.serving.le ?_
    intro hgone o' ho'
    have hstream : w.stream ≠ [] := hgone.resolve_left fun hne => hne rfl
    rcases (h.sender.sends hsends hid hheeds).2.2.2 o' ho' with ⟨o, ho, hkeeps⟩
    rcases h.carried (.inr hstream) o ho with hd | hs
    · exact hkeeps hd
    · exact .inr hs
  have hstay : ∀ t, w.serving = t → t.step id w.sender v = (w.sender, t, none) →
      Sound P offer id { w with
        sender := (t.step id w.sender v).1
        serving := (t.step id w.sender v).2.1
        stream := w.stream ++ (t.step id w.sender v).2.2.toList } := by
    intro t ht hsame
    rw [hsame, Option.toList_none, List.append_nil, ← ht]
    exact h
  have hserving := h.serving
  cases ht : w.serving with
  | «over» => exact hstay _ ht (by cases v <;> rfl)
  | listening =>
      rw [ht] at hserving
      have hempty : w.stream = [] := List.length_eq_zero_iff.mp hserving
      have hnothing : ∀ {α : Prop}, Serving.sent? .over ≠ none ∨ w.stream ≠ [] → α := by
        intro α hgone
        rcases hgone with hgone | hgone
        · exact absurd rfl hgone
        · exact absurd hempty hgone
      cases v with
      | stopListening =>
          have hover := h.thread (t := .over) [] (by rw [List.append_nil]; exact h.serving.le)
            (by rw [List.append_nil]; exact hnothing)
          exact hover
      | greeted now =>
          have hheeds : Heeds P offer w.stream w.relayed w.fetching (w.incoming id) w.sender id
              (.directBegin id now) := by
            refine heeds_call (fun h => h) ?_ ?_ ?_
            · rintro kind body d ⟨⟩
            · rintro count later ⟨⟩
            · rintro ⟨⟩
          simp only [Serving.step]
          split
          · rw [Option.toList_none, List.append_nil]
            exact h.call hid rfl hheeds h.serving.le hnothing
          · rename_i path begun hbegun
            rcases Sender.directBegin_some hbegun with ⟨o, ho, -, hoffer, ho'⟩
            have hsame : begun = offer := hoffer.symm.trans (h.sender.offer_eq o ho)
            rw [Option.toList_none, List.append_nil, hsame]
            refine h.call hid rfl hheeds ?_ ?_
            · rw [hempty]
              exact servingAt_loop (Nat.zero_le _)
            · intro _ o'' ho''
              rw [show (w.sender.step P (.directBegin id now)).1 =
                (w.sender.directBegin id now).1 from rfl, ho'] at ho''
              cases ho''
              exact .inl rfl
      | piece data wrote => exact hstay _ ht (by cases data <;> rfl)
      | progress now => exact hstay _ ht rfl
      | lastWord ended => exact hstay _ ht (by cases ended <;> rfl)
  | sending f index =>
      rw [ht] at hserving
      rcases hserving with ⟨rfl, hcount, hlt⟩
      cases v with
      | piece data wrote =>
          cases data with
          | error err =>
              have hover := hfailed ("couldn't read the file: " ++ err)
              simp only [Serving.step, Option.toList_none, List.append_nil]
              exact hover
          | ok data =>
              cases hlen : decide (data.length = pieceLen f index) with
              | false =>
                  have hsame : data.length ≠ pieceLen f index := of_decide_eq_false hlen
                  exact hstay _ ht (by rw [Serving.step, if_pos hsame])
              | true =>
                  have hsame : ¬ data.length ≠ pieceLen f index := not_not.mpr (of_decide_eq_true hlen)
                  cases wrote with
                  | false =>
                      have hover := hfailed "the other device stopped receiving."
                      simp only [Serving.step, if_neg hsame, Bool.not_false, if_true,
                        Option.toList_none, List.append_nil]
                      exact hover
                  | true =>
                      simp only [Serving.step, if_neg hsame, Bool.not_true, Bool.false_eq_true,
                        if_false, Option.toList_some]
                      refine h.thread [data] ?_ ?_
                      · rw [List.length_append, hcount]
                        exact ⟨rfl, rfl, hlt⟩
                      · intro _
                        exact h.carried (.inl (by rw [ht]; rintro ⟨⟩))
      | stopListening => exact hstay _ ht rfl
      | greeted now => exact hstay _ ht rfl
      | progress now => exact hstay _ ht rfl
      | lastWord ended => exact hstay _ ht (by cases ended <;> rfl)
  | written f index =>
      rw [ht] at hserving
      rcases hserving with ⟨rfl, hcount, hlt⟩
      have hgoing : w.serving.sent? ≠ none := by
        rw [ht]
        rintro ⟨⟩
      cases v with
      | progress now =>
          have hheeds : Heeds P f w.stream w.relayed w.fetching (w.incoming id) w.sender id
              (.directProgress id (index + 1) now) := by
            refine heeds_call (fun h => h) ?_ ?_ ?_
            · rintro kind body d ⟨⟩
            · rintro count later ⟨⟩
              exact hcount.ge
            · rintro ⟨⟩
          have hsends := State.step_sends (P := P) h.senderKeyed
            (.directProgress id (index + 1) now) id
          have hcarried : ∀ o', (w.sender.directProgress id (index + 1) now).1.sending.get? id =
              some o' → o'.direct = true ∨ Settled w.fetching (w.incoming id) := by
            intro o' ho'
            rcases (h.sender.sends hsends hid hheeds).2.2.2 o' ho' with ⟨o, ho, hkeeps⟩
            rcases h.carried (.inl hgoing) o ho with hd | hs
            · exact hkeeps hd
            · exact .inr hs
          simp only [Serving.step]
          split
          · rw [Option.toList_none, List.append_nil]
            refine h.call hid rfl hheeds ?_ fun _ => hcarried
            rw [hcount]
            exact servingAt_loop hlt
          · rw [Option.toList_none, List.append_nil]
            exact h.call hid rfl hheeds h.serving.le fun _ => hcarried
      | stopListening => exact hstay _ ht rfl
      | greeted now => exact hstay _ ht rfl
      | piece data wrote => exact hstay _ ht (by cases data <;> rfl)
      | lastWord ended => exact hstay _ ht (by cases ended <;> rfl)
  | confirming f =>
      rw [ht] at hserving
      rcases hserving with ⟨rfl, hcount⟩
      have hgoing : w.serving.sent? ≠ none := by
        rw [ht]
        rintro ⟨⟩
      cases v with
      | lastWord ended =>
          cases ended with
          | none =>
              have hover := hfailed "the other device did not confirm it."
              simp only [Serving.step, Option.toList_none, List.append_nil]
              exact hover
          | some ended =>
              have hword : w.word = some ended := eq_of_beq hheard
              have hheeds : Heeds P f w.stream w.relayed w.fetching (w.incoming id) w.sender id
                  (.directFinished id ended) := by
                refine heeds_call (fun h => h) ?_ ?_ ?_
                · rintro kind body d ⟨⟩
                · rintro count now ⟨⟩
                · rintro ⟨⟩
                  exact h.word hword
              have hsends := State.step_sends (P := P) h.senderKeyed (.directFinished id ended) id
              simp only [Serving.step, Option.toList_none, List.append_nil]
              refine h.call hid rfl hheeds h.serving.le ?_
              intro _ o' ho'
              rcases (h.sender.sends hsends hid hheeds).2.2.2 o' ho' with ⟨o, ho, hkeeps⟩
              rcases h.carried (.inl hgoing) o ho with hd | hs
              · exact hkeeps hd
              · exact .inr hs
      | stopListening => exact hstay _ ht rfl
      | greeted now => exact hstay _ ht rfl
      | piece data wrote => exact hstay _ ht (by cases data <;> rfl)
      | progress now => exact hstay _ ht rfl

/-! ## The receiver's events -/

/-- A step of the receiver, given what it leaves of the receiver's side and what it says. -/
theorem Sound.moved (h : Sound P offer id w) {s : State} {fetching : Fetching} {read : Nat}
    {word : Option AckState} {out : List LocalEvent} (hkeyed : s.WellKeyed)
    (hside : ReceiverSide P offer w.stream w.relayed read fetching (s.receiving.get? id))
    (hout : Truthful P offer id w.stream w.relayed fetching (s.receiving.get? id) out)
    (hreached : ∀ n, Reached w.relayed (w.incoming id) n →
      Reached w.relayed (s.receiving.get? id) n)
    (hkept : Kept P offer w.stream w.relayed (w.incoming id) →
      Kept P offer w.stream w.relayed (s.receiving.get? id))
    (hsettled : Settled w.fetching (w.incoming id) → Settled fetching (s.receiving.get? id))
    (hword : word = some .done → Kept P offer w.stream w.relayed (s.receiving.get? id)) :
    Sound P offer id { w with
      receiver := s
      toSender := w.toSender ++ out
      fetching := fetching
      read := read
      word := word } where
  senderKeyed := h.senderKeyed
  receiverKeyed := hkeyed
  sender := h.sender.follow hreached hkept hsettled
  receiver := hside
  serving := h.serving
  carried := fun hgone o ho => (h.carried hgone o ho).imp_right hsettled
  pieces := h.pieces
  offered := h.offered
  replies := (h.replies.follow hreached hkept hsettled).append hout
  word := hword

/-- An event that accepts nothing starts no thread. -/
theorem not_starts {s : State} {disk : Disk} {e : Event} {x y : Option Incoming}
    {replies : List LocalEvent} (h : Receives P s disk e id x y replies)
    (haccepts : ∀ d, ¬ e.accepts id d) : ¬ Starts P s x y := by
  rintro ⟨i, j, link, rfl, hoffered, rfl, hmoving, -⟩
  cases h with
  | kept => exact nomatch hoffered.symm.trans hmoving
  | stopped stage hstops hlive hstopped =>
      have hnot := hstopped.isMoving
      rw [show stage = .moving 0 from hmoving] at hnot
      cases hnot
  | offline => cases hmoving
  | declined => cases hmoving
  | accepted haccept => exact haccepts _ haccept
  | asked he hstage => exact nomatch hoffered.symm.trans hstage
  | taken he hnext =>
      have hlive := hnext.2.2.1
      rw [hoffered] at hlive
      cases hlive
  | directed => exact nomatch hoffered.symm.trans hmoving
  | direct he hlive =>
      rw [hoffered] at hlive
      cases hlive

/-- An event of the receiver that takes nothing off the stream. -/
theorem Sound.received (h : Sound P offer id w) (hfits : offer.chunkCount < 2 ^ 32) {e : Event}
    {fetching : Fetching}
    (hasked : ∀ room, e = .answerThroughRelay id room → w.fetching = .over)
    (hbegins : ∀ now, e ≠ .directReceiving id now)
    (hdirect : ∀ data io now, e ≠ .directPiece id data io now)
    (hoffer : ∀ body d f, e = .message .fileOffer body d → SignedOffer P w.receiver body f →
      f.offerId ≠ id)
    (hpiece : ∀ body d c, e = .message .fileChunk body d → Chunk.decode body = .ok c →
      c.offerId = id → w.relayed[c.index.toNat]? = some c.data)
    (hthread : Thread P w.receiver (w.incoming id) ((w.receiver.step P e).1.receiving.get? id)
      w.fetching fetching) :
    Sound P offer id { w.replied (w.receiver.step P e) with fetching := fetching } := by
  have hreceives := State.step_receives (P := P) h.receiverKeyed e id
  rcases h.receiver.receives hreceives hfits hasked hbegins hdirect hoffer hpiece hthread with
    ⟨hside, hout, hfollows⟩
  have hsays : Truthful P offer id w.stream w.relayed fetching
      ((w.receiver.step P e).1.receiving.get? id)
      (ofKinds [.fileAnswer, .fileAck, .fileCancel] (w.receiver.step P e).2) :=
    hout.of_replies.mono fun m hm => mem_ofKinds hm
  exact h.moved (State.step_wellKeyed h.receiverKeyed e) hside hsays (Reached.follow hfollows)
    (Kept.follow hfollows) (fun hs => hthread.settled hs hfollows)
    fun hword => (h.word hword).follow hfollows

/-! ## The receiver's thread -/

/-- The thread stops wherever it stands. -/
theorem ReceiverSide.stop {stream relayed : List Bytes} {read : Nat} {fetching : Fetching}
    {y : Option Incoming} (h : ReceiverSide P offer stream relayed read fetching y) :
    ReceiverSide P offer stream relayed read .over y where
  takes := h.takes
  owed := h.owed
  waiting := by
    intro i hi hoffered
    rcases h.waiting i hi hoffered with ⟨hdirect, -, hread⟩
    exact ⟨hdirect, rfl, hread⟩
  directed := h.directed
  settled := fun hsome => ⟨rfl, (h.settled hsome).2⟩
  read_le := h.read_le
  thread := trivial

theorem Sound.stop (h : Sound P offer id w) : Sound P offer id { w with fetching := .over } := by
  have hmoved := h.moved h.receiverKeyed h.receiver.stop truthful_nil (fun _ hn => hn)
    (fun hk => hk) (fun hs => ⟨rfl, hs.2⟩) h.word
  rw [List.append_nil] at hmoved
  exact hmoved

/-- The thread goes on without a call. -/
theorem Sound.fetching (h : Sound P offer id w) {fetching : Fetching} {read : Nat}
    (hgoing : w.fetching ≠ .over)
    (hside : ReceiverSide P offer w.stream w.relayed read fetching (w.incoming id)) :
    Sound P offer id { w with fetching := fetching, read := read } := by
  have hmoved := h.moved h.receiverKeyed hside truthful_nil (fun _ hn => hn) (fun hk => hk)
    (fun hs => absurd hs.1 hgoing) h.word
  rw [List.append_nil] at hmoved
  exact hmoved

/-- What `direct_piece` does: it takes the piece, or the transfer is given up unless it was over
already. -/
theorem directPiece_cases (s : State) (id : OfferId) (data : Bytes) (io : FileDraws)
    (now : Instant) :
    (∃ i i' disk ended, s.receiving.get? id = some i ∧ i.stage.isMoving = true ∧
      Took P i data now s.disk i' disk ended ∧
      (s.directPiece P id data io now).2 = .ok ended ∧
      (s.directPiece P id data io now).1.receiving.get? id = some i') ∨
    (s.directPiece P id data io now).2 = .error () ∧
      ((s.directPiece P id data io now).1 = s ∨
        ∃ why, (s.directPiece P id data io now).1 = s.directReceiveFailed id why) := by
  unfold State.directPiece
  cases hget : s.receiving.get? id with
  | none => exact .inr ⟨rfl, .inl rfl⟩
  | some i =>
  simp only
  split
  · exact .inr ⟨rfl, .inl rfl⟩
  rename_i hmoving
  rw [Bool.not_eq_true', Bool.not_eq_false] at hmoving
  split
  · rename_i ended hok
    refine .inl ⟨i, _, _, ended, rfl, hmoving, takePiece_ok hok, rfl, ?_⟩
    rw [State.putReceiving, Table.get?_insert, if_pos rfl]
  · rename_i why herror
    rcases takePiece_error herror with ⟨hsame, hdisk⟩
    refine .inr ⟨rfl, .inr ⟨why, ?_⟩⟩
    have hlive : ¬ i.stage.finished = true := by
      rw [Stage.unfinished_of_moving hmoving]
      exact Bool.false_ne_true
    rw [hsame, hdisk, State.directReceiveFailed, hget]
    simp only [if_neg hlive]

theorem took_owed {i i' : Incoming} {data : Bytes} {now : Instant} {disk disk' : Disk}
    {ended : Option AckState} (h : Took P i data now disk i' disk' ended) :
    i'.owedAck = i.owedAck := by
  cases h with
  | more | kept | thrown => rfl

/-- A thread that is not over yet stands at a receiver that has not answered. -/
theorem ReceiverSide.unanswered {stream relayed : List Bytes} {read : Nat} {fetching : Fetching}
    {y : Option Incoming} (h : ReceiverSide P offer stream relayed read fetching y)
    (hgoing : fetching ≠ .over) : relayed = [] ∧ ¬ Settled fetching y := by
  have hnot : ¬ Settled fetching y := fun hs => hgoing hs.1
  refine ⟨?_, hnot⟩
  by_contra hsome
  exact hnot (h.settled hsome)

/-- The first piece is in hand, and the record goes over to the direct stream. -/
theorem ReceiverSide.begun {stream relayed : List Bytes} {read : Nat} {data : Bytes}
    {i : Incoming} (h : ReceiverSide P offer stream relayed read (.opened data) (some i))
    (now : Instant) :
    ReceiverSide P offer stream relayed read (.holding data)
      (some { i with direct := true, moved := now }) := by
  rcases h.thread with ⟨hread, hfirst, hrelay⟩
  have hempty := (h.unanswered nofun).1
  have htakes := h.takes i rfl
  rw [source, hrelay i rfl, if_neg Bool.false_ne_true, hempty] at htakes
  -- nothing has come through the relay, so it has taken none of either
  have hnone : i.received = 0 := Nat.le_zero.mp htakes.came
  have htakes' := htakes.append stream
  rw [List.nil_append] at htakes'
  exact {
    takes := by
      rintro j ⟨⟩
      exact htakes'.of_eq rfl rfl rfl rfl rfl
    owed := by
      rintro j received state ⟨⟩ howed
      rcases h.owed i received state rfl howed with ⟨hreached, hdone⟩
      refine ⟨⟨hreached.1, ?_⟩, hdone⟩
      rintro j ⟨⟩
      exact hreached.2 i rfl
    waiting := by
      rintro j ⟨⟩ hoffered
      exact absurd (h.waiting i rfl hoffered).2.1 nofun
    directed := by
      rintro j ⟨⟩ -
      rw [hread]
      exact Nat.one_pos
    settled := fun hsome => absurd hempty hsome
    read_le := h.read_le
    thread := by
      rw [hread]
      refine ⟨Nat.one_pos, hfirst, ?_⟩
      rintro j ⟨⟩
      exact ⟨rfl, fun _ => congrArg (· + 1) hnone⟩ }

/-- The piece in hand is the next one. -/
theorem ReceiverSide.took {stream relayed : List Bytes} {read : Nat} {data : Bytes}
    {i i' : Incoming} {now : Instant} {disk disk' : Disk} {ended : Option AckState}
    (h : ReceiverSide P offer stream relayed read (.holding data) (some i))
    (htook : Took P i data now disk i' disk' ended) (hmoving : i.stage.isMoving = true)
    (hfits : offer.chunkCount < 2 ^ 32) {fetching : Fetching}
    (hnext : fetching = .reading ∨ fetching = .over) :
    ReceiverSide P offer stream relayed read fetching (some i') ∧
      i.received ≤ i'.received ∧ (ended = some .done → IsKept i') := by
  rcases h.thread with ⟨hread, hat, hcount⟩
  rcases hcount i rfl with ⟨hdirect, hgone⟩
  have hempty := (h.unanswered nofun).1
  have htakes := h.takes i rfl
  rw [source, hdirect, if_pos rfl] at htakes
  have hpiece : stream[i.received]? = some data := by
    rw [← hat, ← hgone hmoving, Nat.add_sub_cancel]
  rcases htook.takes htakes hmoving hpiece hfits with ⟨htakes', hreceived, hdone⟩
  have hstream : i'.direct = true := (took_direct htook).trans hdirect
  refine ⟨?_, by omega, hdone⟩
  exact {
    takes := by
      rintro j ⟨⟩
      rw [source, hstream, if_pos rfl]
      exact htakes'
    owed := by
      rintro j received state ⟨⟩ howed
      rw [took_owed htook] at howed
      rcases h.owed i received state rfl howed with ⟨hreached, hkept⟩
      refine ⟨⟨hreached.1, ?_⟩, fun hstate => absurd (hkept hstate)
        (not_kept_of_unfinished (Stage.unfinished_of_moving hmoving))⟩
      rintro j ⟨⟩
      have hbound := hreached.2 i rfl
      omega
    waiting := by
      rintro j ⟨⟩ hoffered
      exact (took_past htook hoffered).elim
    directed := fun _ _ _ => hread
    settled := fun hsome => absurd hempty hsome
    read_le := h.read_le
    thread := by
      rcases hnext with rfl | rfl
      · refine ⟨hread, ?_⟩
        rintro j ⟨⟩
        exact ⟨hstream, fun _ => hreceived.trans (hgone hmoving)⟩
      · trivial }

/-- A call that gives the file up, with the thread over. -/
theorem Sound.failed (h : Sound P offer id w) (hfits : offer.chunkCount < 2 ^ 32) (why : String) :
    Sound P offer id { w with receiver := w.receiver.directReceiveFailed id why, fetching := .over } := by
  have hreceives := State.step_receives (P := P) h.receiverKeyed (.directReceiveFailed id why) id
  have hthread : Thread P w.receiver (w.incoming id)
      ((w.receiver.directReceiveFailed id why).receiving.get? id) .over .over :=
    .inr ⟨not_starts hreceives fun _ h => h, rfl⟩
  have hfailed := h.stop.received hfits (e := .directReceiveFailed id why)
    (by rintro room ⟨⟩) (by rintro now ⟨⟩) (by rintro data io now ⟨⟩) (by rintro body d f ⟨⟩)
    (by rintro body d c ⟨⟩) hthread
  have hsame : w.toSender ++ [] = w.toSender := List.append_nil _
  rw [Passage.replied, show (State.step P w.receiver (.directReceiveFailed id why)).2 = [] from rfl,
    show ofKinds [.fileAnswer, .fileAck, .fileCancel] [] = [] from rfl] at hfailed
  simp only [hsame] at hfailed
  exact hfailed

/-- What a piece leaves of the devices, with the thread reading on or over. -/
theorem Sound.piece (h : Sound P offer id w) (hfits : offer.chunkCount < 2 ^ 32) {data : Bytes}
    (hat : w.fetching = .holding data) {io : FileDraws} {now : Instant} {i i' : Incoming}
    {disk : Disk} {ended : Option AckState} (hget : w.receiver.receiving.get? id = some i)
    (hmoving : i.stage.isMoving = true) (htook : Took P i data now w.receiver.disk i' disk ended)
    (hput : (w.receiver.directPiece P id data io now).1.receiving.get? id = some i')
    {fetching : Fetching} (hnext : fetching = .reading ∨ fetching = .over) :
    Sound P offer id { w with
      receiver := (w.receiver.directPiece P id data io now).1
      fetching := fetching
      word := ended <|> w.word } := by
  have hreceiver := h.receiver
  rw [show w.incoming id = some i from hget, hat] at hreceiver
  rcases hreceiver.took htook hmoving hfits hnext with ⟨hside, hreceived, hdone⟩
  have hlive := not_kept_of_unfinished (Stage.unfinished_of_moving hmoving)
  have hkept : Kept P offer w.stream w.relayed (w.incoming id) →
      Kept P offer w.stream w.relayed (some i') := fun hk => absurd (hk.2 i hget) hlive
  have hkeyed := State.step_wellKeyed (P := P) h.receiverKeyed (.directPiece id data io now)
  rw [← hput] at hside hkept
  have hreached : ∀ n, Reached w.relayed (w.incoming id) n →
      Reached w.relayed ((w.receiver.directPiece P id data io now).1.receiving.get? id) n := by
    intro n hn
    refine ⟨hn.1, ?_⟩
    rw [hput]
    rintro j ⟨⟩
    exact (hn.2 i hget).trans hreceived
  have hunsettled : ¬ Settled w.fetching (w.incoming id) := by
    rw [hat]
    exact fun hs => nomatch hs.1
  -- the last word is written only once the file is kept
  have hword : (ended <|> w.word) = some .done → Kept P offer w.stream w.relayed
      ((w.receiver.directPiece P id data io now).1.receiving.get? id) := by
    cases ended with
    | none => exact fun hword => hkept (h.word hword)
    | some last =>
        rintro ⟨⟩
        rw [hput] at hside ⊢
        exact hside.whole (hdone rfl)
  have hmoved := h.moved hkeyed hside truthful_nil hreached hkept
    (fun hs => absurd hs hunsettled) hword
  rw [List.append_nil] at hmoved
  exact hmoved

/-- A step of the thread that puts nothing into the queue. -/
theorem step_fetch {v : Fetch} (hgiven : v.given w.stream[w.read]? = true) {s : State}
    {fetching : Fetching} {word : Option AckState}
    (hstep : w.fetching.step P id w.receiver v = (s, fetching, [], word)) :
    w.step P id (.fetch v) = { w with
      receiver := s
      fetching := fetching
      read := w.read + (w.fetching.reads v).toNat
      word := word <|> w.word } := by
  have hnone : w.toSender ++ ofKinds [.fileAnswer, .fileAck, .fileCancel] [] = w.toSender :=
    List.append_nil _
  simp only [step, hgiven, if_true, hstep, Passage.replied, hnone]

/-- The thread stays where it is. -/
theorem Sound.stay (h : Sound P offer id w) {v : Fetch}
    (hstep : w.fetching.step P id w.receiver v = (w.receiver, w.fetching, [], none))
    (hreads : w.fetching.reads v = false) : Sound P offer id (w.step P id (.fetch v)) := by
  cases hgiven : v.given w.stream[w.read]? with
  | false =>
      have hsame : w.step P id (.fetch v) = w := by
        simp only [step, hgiven, Bool.false_eq_true, if_false]
      rw [hsame]
      exact h
  | true =>
      rw [step_fetch hgiven hstep, hreads]
      exact h

theorem Sound.reach (h : Sound P offer id w) (hat : w.fetching = .reaching) (v : Fetch) :
    Sound P offer id (w.step P id (.fetch v)) := by
  cases hgiven : v.given w.stream[w.read]? with
  | false =>
      simp only [step, hgiven, Bool.false_eq_true, if_false]
      exact h
  | true =>
  have hgoing : w.fetching ≠ .over := by
    rw [hat]
    exact nofun
  have hside := h.receiver
  rw [hat] at hside
  have hwaiting : ∀ i, w.incoming id = some i → i.stage ≠ .offered := fun i hi hoffered =>
    absurd (hside.waiting i hi hoffered).2.1 nofun
  cases v with
  | unreached =>
      have hasking : ReceiverSide P offer w.stream w.relayed w.read .asking (w.incoming id) := {
        hside with
        waiting := fun i hi hoffered => absurd hoffered (hwaiting i hi)
        settled := fun hsome => absurd (hside.settled hsome).1 nofun
        thread := hside.thread }
      rw [step_fetch hgiven (by rw [hat]; rfl), hat]
      exact h.fetching hgoing hasking
  | first data =>
      have hfirst : w.stream[w.read]? = some data := eq_of_beq hgiven
      have hread : w.read = 0 := hside.thread
      have hrelay : ∀ i, w.incoming id = some i → i.direct = false := by
        intro i hi
        rw [Bool.eq_false_iff]
        intro hdirect
        have hpos := hside.directed i hi hdirect
        omega
      have hopened : ReceiverSide P offer w.stream w.relayed (w.read + 1) (.opened data)
          (w.incoming id) := {
        takes := hside.takes
        owed := hside.owed
        waiting := fun i hi hoffered => absurd hoffered (hwaiting i hi)
        directed := fun _ _ _ => Nat.succ_pos _
        settled := fun hsettled => absurd (hside.settled hsettled).1 nofun
        read_le := (List.getElem?_eq_some_iff.mp hfirst).1
        thread := by
          rw [hread] at hfirst ⊢
          exact ⟨rfl, hfirst, hrelay⟩ }
      rw [step_fetch hgiven (by rw [hat]; rfl), hat]
      exact h.fetching hgoing hopened
  | ask room => exact h.stay (by rw [hat]; rfl) (by rw [hat]; rfl)
  | begins now => exact h.stay (by rw [hat]; rfl) (by rw [hat]; rfl)
  | piece io now => exact h.stay (by rw [hat]; rfl) (by rw [hat]; rfl)
  | next data => exact h.stay (by rw [hat]; rfl) (by rw [hat]; rfl)
  | broke reason => exact h.stay (by rw [hat]; rfl) (by rw [hat]; rfl)

theorem Sound.ask (h : Sound P offer id w) (hfits : offer.chunkCount < 2 ^ 32)
    (hat : w.fetching = .asking) (v : Fetch) : Sound P offer id (w.step P id (.fetch v)) := by
  cases v with
  | ask room =>
      have hreceives := State.step_receives (P := P) h.receiverKeyed
        (.answerThroughRelay id room) id
      have hthread : Thread P w.receiver (w.incoming id)
          ((w.receiver.answerThroughRelay P id room).1.receiving.get? id) .over .over :=
        .inr ⟨not_starts hreceives fun _ h => h, rfl⟩
      have hasked := h.stop.received hfits (e := .answerThroughRelay id room) (fun _ _ => rfl)
        (by rintro now ⟨⟩) (by rintro data io now ⟨⟩) (by rintro body d f ⟨⟩)
        (by rintro body d c ⟨⟩) hthread
      rw [step, hat]
      exact hasked
  | unreached => exact h.stay (by rw [hat]; rfl) (by rw [hat]; rfl)
  | first data => exact h.stay (by rw [hat]; rfl) (by rw [hat]; rfl)
  | begins now => exact h.stay (by rw [hat]; rfl) (by rw [hat]; rfl)
  | piece io now => exact h.stay (by rw [hat]; rfl) (by rw [hat]; rfl)
  | next data => exact h.stay (by rw [hat]; rfl) (by rw [hat]; rfl)
  | broke reason => exact h.stay (by rw [hat]; rfl) (by rw [hat]; rfl)

theorem Sound.begun (h : Sound P offer id w) {data : Bytes} (hat : w.fetching = .opened data)
    (v : Fetch) : Sound P offer id (w.step P id (.fetch v)) := by
  cases v with
  | begins now =>
      have hside := h.receiver
      rw [hat] at hside
      rcases hside.unanswered nofun with ⟨hempty, -⟩
      have hkeyed := State.step_wellKeyed (P := P) h.receiverKeyed (.directReceiving id now)
      have hput : (w.receiver.directReceiving id now).receiving.get? id =
          (w.incoming id).map fun i => { i with direct := true, moved := now } := by
        unfold State.directReceiving incoming
        cases hget : w.receiver.receiving.get? id with
        | none => exact hget
        | some i => rw [Table.get?_insert, if_pos rfl]; rfl
      have hbegun : ReceiverSide P offer w.stream w.relayed w.read (.holding data)
          ((w.receiver.directReceiving id now).receiving.get? id) := by
        rw [hput]
        cases hget : w.incoming id with
        | none =>
            rw [hget] at hside
            have hgone := hside.gone
            rcases hgone.thread with ⟨hread, hfirst, -⟩
            refine { hgone with
              waiting := absent
              settled := fun hsome => absurd hempty hsome
              thread := ?_ }
            rw [hread]
            exact ⟨Nat.one_pos, hfirst, absent⟩
        | some i =>
            rw [hget] at hside
            exact hside.begun now
      have hkeeps : ∀ j, (w.receiver.directReceiving id now).receiving.get? id = some j →
          ∃ i, w.incoming id = some i ∧ j.received = i.received ∧ j.stage = i.stage := by
        intro j hj
        rw [hput] at hj
        rcases Option.map_eq_some_iff.mp hj with ⟨i, hi, rfl⟩
        exact ⟨i, hi, rfl, rfl⟩
      have hreached : ∀ n, Reached w.relayed (w.incoming id) n →
          Reached w.relayed ((w.receiver.directReceiving id now).receiving.get? id) n := by
        intro n hn
        refine ⟨hn.1, ?_⟩
        intro j hj
        rcases hkeeps j hj with ⟨i, hi, hreceived, -⟩
        rw [hreceived]
        exact hn.2 i hi
      have hkept : Kept P offer w.stream w.relayed (w.incoming id) →
          Kept P offer w.stream w.relayed
            ((w.receiver.directReceiving id now).receiving.get? id) := by
        intro hk
        refine ⟨hk.1, ?_⟩
        intro j hj
        rcases hkeeps j hj with ⟨i, hi, -, hstage⟩
        rw [IsKept, hstage]
        exact hk.2 i hi
      have hunsettled : ¬ Settled w.fetching (w.incoming id) := by
        rw [hat]
        exact fun hs => nomatch hs.1
      have hmoved := h.moved hkeyed hbegun truthful_nil hreached hkept
        (fun hs => absurd hs hunsettled) fun hword => hkept (h.word hword)
      rw [List.append_nil] at hmoved
      rw [step_fetch rfl (by rw [hat]; rfl), hat]
      exact hmoved
  | unreached => exact h.stay (by rw [hat]; rfl) (by rw [hat]; rfl)
  | ask room => exact h.stay (by rw [hat]; rfl) (by rw [hat]; rfl)
  | first other => exact h.stay (by rw [hat]; rfl) (by rw [hat]; rfl)
  | piece io now => exact h.stay (by rw [hat]; rfl) (by rw [hat]; rfl)
  | next other => exact h.stay (by rw [hat]; rfl) (by rw [hat]; rfl)
  | broke reason => exact h.stay (by rw [hat]; rfl) (by rw [hat]; rfl)

theorem Sound.hold (h : Sound P offer id w) (hfits : offer.chunkCount < 2 ^ 32) {data : Bytes}
    (hat : w.fetching = .holding data) (v : Fetch) : Sound P offer id (w.step P id (.fetch v)) := by
  cases v with
  | piece io now =>
      rcases directPiece_cases (P := P) w.receiver id data io now with
        ⟨i, i', disk, ended, hget, hmoving, htook, hok, hput⟩ | ⟨herror, hstate⟩
      · cases ended with
        | none =>
            have hstep : w.fetching.step P id w.receiver (.piece io now) =
                ((w.receiver.directPiece P id data io now).1, .reading, [], none) := by
              rw [hat]
              simp only [Fetching.step, hok]
            rw [step_fetch rfl hstep, hat]
            exact h.piece hfits hat hget hmoving htook hput (.inl rfl)
        | some last =>
            have hstep : w.fetching.step P id w.receiver (.piece io now) =
                ((w.receiver.directPiece P id data io now).1, .over, [], some last) := by
              rw [hat]
              simp only [Fetching.step, hok]
            rw [step_fetch rfl hstep, hat]
            exact h.piece hfits hat hget hmoving htook hput (.inr rfl)
      · have hstep : w.fetching.step P id w.receiver (.piece io now) =
            ((w.receiver.directPiece P id data io now).1, .over, [], none) := by
          rw [hat]
          simp only [Fetching.step, herror]
        rw [step_fetch rfl hstep, hat]
        rcases hstate with hsame | ⟨why, hfailed⟩
        · rw [hsame]
          exact h.stop
        · rw [hfailed]
          exact h.failed hfits why
  | unreached => exact h.stay (by rw [hat]; rfl) (by rw [hat]; rfl)
  | ask room => exact h.stay (by rw [hat]; rfl) (by rw [hat]; rfl)
  | first other => exact h.stay (by rw [hat]; rfl) (by rw [hat]; rfl)
  | begins now => exact h.stay (by rw [hat]; rfl) (by rw [hat]; rfl)
  | next other => exact h.stay (by rw [hat]; rfl) (by rw [hat]; rfl)
  | broke reason => exact h.stay (by rw [hat]; rfl) (by rw [hat]; rfl)

theorem Sound.reading (h : Sound P offer id w) (hfits : offer.chunkCount < 2 ^ 32)
    (hat : w.fetching = .reading) (v : Fetch) : Sound P offer id (w.step P id (.fetch v)) := by
  cases v with
  | next data =>
      cases hgiven : (Fetch.next data).given w.stream[w.read]? with
      | false =>
          simp only [step, hgiven, Bool.false_eq_true, if_false]
          exact h
      | true =>
      have hgoing : w.fetching ≠ .over := by
        rw [hat]
        exact nofun
      have hside := h.receiver
      rw [hat] at hside
      have hnext : w.stream[w.read]? = some data := eq_of_beq hgiven
      have hholding : ReceiverSide P offer w.stream w.relayed (w.read + 1) (.holding data)
          (w.incoming id) := {
        takes := hside.takes
        owed := hside.owed
        waiting := fun i hi hoffered => absurd (hside.waiting i hi hoffered).2.1 nofun
        directed := fun _ _ _ => Nat.succ_pos _
        settled := fun hsettled => absurd (hside.settled hsettled).1 nofun
        read_le := (List.getElem?_eq_some_iff.mp hnext).1
        thread := by
          refine ⟨Nat.succ_pos _, ?_, ?_⟩
          · rw [Nat.add_sub_cancel]
            exact hnext
          · intro i hi
            rcases hside.thread.2 i hi with ⟨hdirect, hcount⟩
            exact ⟨hdirect, fun hmoving => congrArg (· + 1) (hcount hmoving)⟩ }
      rw [step_fetch hgiven (by rw [hat]; rfl), hat]
      exact h.fetching hgoing hholding
  | broke reason =>
      rw [step_fetch rfl (by rw [hat]; rfl), hat]
      exact h.failed hfits reason
  | unreached => exact h.stay (by rw [hat]; rfl) (by rw [hat]; rfl)
  | ask room => exact h.stay (by rw [hat]; rfl) (by rw [hat]; rfl)
  | first other => exact h.stay (by rw [hat]; rfl) (by rw [hat]; rfl)
  | begins now => exact h.stay (by rw [hat]; rfl) (by rw [hat]; rfl)
  | piece io now => exact h.stay (by rw [hat]; rfl) (by rw [hat]; rfl)

theorem Sound.fetch (h : Sound P offer id w) (hfits : offer.chunkCount < 2 ^ 32) (v : Fetch) :
    Sound P offer id (w.step P id (.fetch v)) := by
  cases hat : w.fetching with
  | «over» =>
      have hstep : w.fetching.step P id w.receiver v = (w.receiver, w.fetching, [], none) := by
        rw [hat]
        cases v <;> rfl
      refine h.stay hstep ?_
      rw [hat]
      cases v <;> rfl
  | reaching => exact h.reach hat v
  | asking => exact h.ask hfits hat v
  | opened data => exact h.begun hat v
  | holding data => exact h.hold hfits hat v
  | reading => exact h.reading hfits hat v

/-! ## The messages -/

theorem Sound.lost (h : Sound P offer id w) {out : List LocalEvent}
    (hsub : ∀ m ∈ out, m ∈ w.toReceiver) : Sound P offer id { w with toReceiver := out } :=
  { h with
    pieces := h.pieces.mono hsub
    offered := fun body to_ token hm => h.offered body to_ token (hsub _ hm) }

theorem Sound.lostReply (h : Sound P offer id w) {out : List LocalEvent}
    (hsub : ∀ m ∈ out, m ∈ w.toSender) : Sound P offer id { w with toSender := out } :=
  { h with replies := h.replies.mono hsub }

/-- A piece that arrives is one of those put on their way. -/
theorem Sound.arrive (h : Sound P offer id w) (hfits : offer.chunkCount < 2 ^ 32) (n : Nat)
    (d : MessageDraws) : Sound P offer id (w.step P id (.arrive n d)) := by
  rw [step]
  split
  case h_2 => exact h
  rename_i kind body to_ token hat
  have hm : .message kind body to_ token ∈ w.toReceiver := List.mem_of_getElem? hat
  have hreceives := State.step_receives (P := P) h.receiverKeyed (.message kind body d) id
  have hthread : Thread P w.receiver (w.incoming id)
      ((w.receiver.step P (.message kind body d)).1.receiving.get? id) w.fetching w.fetching :=
    .inr ⟨not_starts hreceives fun _ h => h, rfl⟩
  have harrived := h.received hfits (e := .message kind body d) (by rintro room ⟨⟩)
    (by rintro now ⟨⟩) (by rintro data io now ⟨⟩) ?_ ?_ hthread
  · exact harrived.lost fun m hm => List.mem_of_mem_eraseIdx hm
  · rintro body' d' f ⟨⟩
    exact absurd hm (h.offered body to_ token)
  · rintro body' d' c ⟨⟩ hdecode hid
    refine h.pieces _ hm c ?_ hid
    rw [pieceOf?, hdecode]
    rfl

/-- What is said to the sender is so. -/
theorem Sound.reply (h : Sound P offer id w) (hid : offer.offerId = id) (n : Nat)
    (d : MessageDraws) : Sound P offer id (w.step P id (.reply n d)) := by
  rw [step]
  split
  case h_2 => exact h
  rename_i kind body to_ token hat
  have hm : .message kind body to_ token ∈ w.toSender := List.mem_of_getElem? hat
  have hsent := h.sent hid (heeds_reply h.replies hm d)
  exact hsent.lostReply fun m hm => List.mem_of_mem_eraseIdx hm

/-- What the receiver takes from elsewhere is not about the file. -/
theorem Sound.receiverApart (h : Sound P offer id w) (hfits : offer.chunkCount < 2 ^ 32)
    {e : Event} (hapart : e.Apart P w.receiver id) :
    Sound P offer id (w.step P id (.receiver e)) := by
  rw [step]
  have hcalls := hapart.calls
  refine h.received hfits ?_ ?_ ?_ ?_ ?_ ?_
  · rintro room rfl
    exact absurd rfl hcalls
  · rintro now rfl
    exact absurd rfl hcalls
  · rintro data io now rfl
    exact absurd rfl hcalls
  · rintro body d f rfl hsigned
    exact hapart.elsewhere f hsigned
  · rintro body d c rfl hdecode hid
    exact absurd hid (hapart.elsewhere c hdecode)
  · by_cases hstarts : Starts P w.receiver (w.incoming id)
        ((w.receiver.step P e).1.receiving.get? id)
    · exact .inl ⟨hstarts, if_pos (starts_iff.mpr hstarts)⟩
    · exact .inr ⟨hstarts, if_neg fun h => hstarts (starts_iff.mp h)⟩

theorem Sound.step (h : Sound P offer id w) (hid : offer.offerId = id)
    (hfits : offer.chunkCount < 2 ^ 32) {v : Move} (hfair : Fair P id w v) :
    Sound P offer id (w.step P id v) := by
  cases v with
  | serve v => exact h.serve hid v
  | fetch v => exact h.fetch hfits v
  | sender e => exact h.sent hid (heeds_apart hfair)
  | receiver e => exact h.receiverApart hfits hfair
  | arrive n d => exact h.arrive hfits n d
  | reply n d => exact h.reply hid n d
  | lose n => exact h.lost fun m hm => List.mem_of_mem_eraseIdx hm
  | loseReply n => exact h.lostReply fun m hm => List.mem_of_mem_eraseIdx hm

/-! ## Whole runs -/

/-- A file this program offers has few enough pieces for the counter. -/
theorem Begins.fits (h : Begins id offer w) : offer.chunkCount < 2 ^ 32 := by
  have hbytes : offer.chunkBytes.toNat = 262144 := by
    rw [h.chunked]
    rfl
  refine (chunkCount_lt_iff h.small (by rw [hbytes]; exact Nat.zero_lt_succ _)).mpr ?_
  rintro ⟨-, hone⟩
  rw [hbytes] at hone
  cases hone

theorem Begins.sound (h : Begins id offer w) : Sound P offer id w := by
  rcases h.between with ⟨hstream, hread, hword, hreceiver, hsender, hrelayed⟩
  rcases h.sending with ⟨path, peer, conn, began, hsending⟩
  rcases h.receiving with ⟨name, came, hreceiving⟩
  have hout : w.outgoing id = some (.offered offer path peer conn began) := hsending
  have hin : w.incoming id = some (.offered offer name came) := hreceiving
  have hnone : w.serving.sent? = none := by
    rcases h.serving with hserving | hserving
    · rw [hserving]; rfl
    · rw [hserving]; rfl
  exact {
    senderKeyed := h.sender
    receiverKeyed := h.receiver
    sender := by
      rw [hout, hrelayed]
      exact {
        offer_eq := by rintro o ⟨⟩; rfl
        waiting := by rintro o ⟨⟩ -; exact ⟨rfl, rfl⟩
        addressed := by rintro o ⟨⟩ hsome; exact absurd rfl hsome
        settled := by rintro o ⟨⟩ hsome; exact absurd rfl hsome
        relays := by rintro o ⟨⟩ -; exact ⟨rfl, Reached.zero _ _⟩
        streams := by rintro o ⟨⟩ ⟨⟩
        done := by rintro o path ⟨⟩ ⟨⟩
        few := Nat.zero_le _ }
    receiver := by
      rw [hin, hrelayed, hread, h.fetching]
      exact {
        takes := by
          rintro i ⟨⟩
          exact ⟨rfl, Nat.zero_le _, Nat.zero_le _, fun _ => rfl, nofun, fun _ => ⟨rfl, rfl⟩, nofun⟩
        owed := by rintro i received state ⟨⟩ ⟨⟩
        waiting := by rintro i ⟨⟩ -; exact ⟨rfl, rfl, rfl⟩
        directed := by rintro i ⟨⟩ ⟨⟩
        settled := fun hsome => absurd rfl hsome
        read_le := Nat.zero_le _
        thread := trivial }
    serving := by
      rw [hstream]
      rcases h.serving with hserving | hserving
      · rw [hserving]; rfl
      · rw [hserving]; exact Nat.zero_le _
    carried := by
      rintro (hgone | hgone)
      · exact absurd hnone hgone
      · exact absurd hstream hgone
    pieces := by rw [hreceiver]; rintro m ⟨⟩
    offered := by rw [hreceiver]; rintro body to_ token ⟨⟩
    replies := by rw [hsender]; exact truthful_nil
    word := by rw [hword]; rintro ⟨⟩ }

theorem run_sound (h : Begins id offer w) {moves : List Move}
    (hfair : Runs.Along (Passage.step P id) (Fair P id) w moves) :
    Sound P offer id (w.run P id moves) :=
  Runs.invariant (Passage.step P id) (Sound P offer id)
    (fun _ _ hsound hmove => hsound.step h.keyed h.fits hmove) moves h.sound hfair

/-- A record that takes pieces off the stream belongs to a sender that writes to it. -/
theorem Sound.streams (h : Sound P offer id w) {o : Outgoing} {i : Incoming}
    (ho : w.outgoing id = some o) (hi : w.incoming id = some i) (hdirect : i.direct = true) :
    o.direct = true := by
  have hread := h.receiver.directed i hi hdirect
  have hsome : w.stream ≠ [] :=
    List.ne_nil_of_length_pos (Nat.lt_of_lt_of_le hread h.receiver.read_le)
  rcases h.carried (.inr hsome) o ho with hstream | hsettled
  · exact hstream
  · cases hdirect.symm.trans (hsettled.2 i hi).1

end Passage

/-! ## One file

The phone's offer has reached the laptop, and nothing else has happened. -/

namespace Abandoned

def asking : List Event :=
  [.attach keys.secret laptop room (knows phone "a"), .connected "b" true,
    .message .fileOffer ((offer.encode primitives keys room).toOption.getD []) draws]

def asked : State :=
  (State.default (knows phone "a") Table.empty).run primitives asking

def waiting : Passage :=
  ⟨sender, .listening, asked, .over, [], 0, none, [], [], []⟩

def takesUp : Passage.Move :=
  .receiver (.acceptAs file ⟨"/home", "notes"⟩ false ⟨.ok (), 0, true⟩)

/-- The laptop cannot reach the phone, and the file goes through the relay. -/
def throughRelay : List Passage.Move :=
  [takesUp, .fetch .unreached, .fetch (.ask true), .reply 0 draws, .arrive 0 draws, .reply 0 draws]

/-- The laptop reaches the phone. -/
def straight : List Passage.Move :=
  [takesUp, .serve (.greeted 0), .serve (.piece (.ok content) true), .fetch (.first content),
    .serve (.progress 0), .fetch (.begins 0), .fetch (.piece ⟨.ok (), .ok (), .ok ()⟩ 0),
    .serve (.lastWord (some .done))]

/-- The two records at the start, and after each of the runs. -/
theorem records :
    sender.sending.get? file = some (.offered offer ⟨"", "notes"⟩ "other" "b" 0) ∧
    asked.receiving.get? file = some (.offered offer "other" 0) ∧
    ((waiting.run primitives file throughRelay).incoming file).map (·.stage) =
      some (.done (some ⟨"/home", "notes"⟩)) ∧
    ((waiting.run primitives file straight).outgoing file).map (·.stage) =
      some (.done none) ∧
    ((waiting.run primitives file straight).incoming file).isSome = true := by
  decide +kernel

theorem waiting_begins : Passage.Begins file offer waiting where
  keyed := rfl
  chunked := rfl
  small := by
    change 3 ≤ 4 * 1024 * 1024 * 1024
    omega
  sender := State.run_wellKeyed (State.default_wellKeyed _ _) _
  receiver := by
    simp only [waiting, asked]
    exact State.run_wellKeyed (State.default_wellKeyed _ _) asking
  sending := ⟨⟨"", "notes"⟩, "other", "b", 0, records.1⟩
  receiving := ⟨"other", 0, records.2.1⟩
  serving := .inl rfl
  fetching := rfl
  between := ⟨rfl, rfl, rfl, rfl, rfl, rfl⟩

theorem takesUp_fair (w : Passage) : Passage.Fair primitives file w takesUp where
  calls := fun h => h
  offers := fun h => h
  elsewhere := trivial

end Abandoned

namespace Passage

/-- In any order of the two devices, their threads and their messages, with messages lost or
overtaken: through the relay no more is acknowledged than was received and no more is received than
was sent, and what was received is the first pieces in their order.  A file that is kept consists
of all of them, and they are the file that was offered. -/
theorem kept_as_sent (P : Primitives) (id : OfferId) (offer : Offer) (w₀ : Passage)
    (hbegins : Begins id offer w₀) (moves : List Move)
    (hfair : Runs.Along (Passage.step P id) (Fair P id) w₀ moves) (i : Incoming)
    (hi : (w₀.run P id moves).incoming id = some i) :
    (∀ o, (w₀.run P id moves).outgoing id = some o →
      if o.direct then
        o.acked ≤ (w₀.run P id moves).stream.length ∧ i.received ≤ (w₀.run P id moves).stream.length
      else i.direct = false ∧ o.acked ≤ i.received ∧ i.received ≤ o.next) ∧
    (∀ n, i.stage = .moving n → n = i.received ∧ i.hasher =
      ((source i (w₀.run P id moves).stream (w₀.run P id moves).relayed).take n).flatten) ∧
    ∀ path, i.stage = .done path → path.isSome = true ∧ i.received = offer.chunkCount ∧
      Whole P offer (source i (w₀.run P id moves).stream (w₀.run P id moves).relayed) := by
  have h := run_sound (P := P) hbegins hfair
  generalize w₀.run P id moves = w at h hi
  have htakes := h.receiver.takes i hi
  refine ⟨?_, ?_, htakes.done⟩
  · intro o ho
    split
    · rename_i hstream
      rcases h.sender.streams o ho hstream with ⟨hempty, -, hacked⟩
      refine ⟨hacked, htakes.came.trans ?_⟩
      unfold source
      split
      · exact le_refl _
      · rw [hempty]
        exact Nat.zero_le _
    · rename_i hrelay
      have hdirect : i.direct = false := by
        rw [Bool.eq_false_iff]
        exact fun hdirect => hrelay (h.streams ho hi hdirect)
      rcases h.sender.relays o ho (Bool.eq_false_iff.mpr hrelay) with ⟨hnext, hreached⟩
      refine ⟨hdirect, hreached.2 i hi, ?_⟩
      have hcame := htakes.came
      rwa [source, hdirect, if_neg Bool.false_ne_true, ← hnext] at hcame
  · intro n hmoving
    rw [htakes.shown n hmoving]
    exact ⟨rfl, (htakes.fed (by rw [hmoving]; rfl)).1⟩

open Abandoned in
/-- A file the laptop kept through the relay. -/
theorem kept_through_relay : ∃ i : Incoming,
    (waiting.run primitives file throughRelay).incoming file = some i ∧
      i.received = offer.chunkCount ∧
      Whole primitives offer (source i (waiting.run primitives file throughRelay).stream
        (waiting.run primitives file throughRelay).relayed) := by
  rcases Option.map_eq_some_iff.mp records.2.2.1 with ⟨i, hi, hstage⟩
  have hkept := kept_as_sent primitives file offer waiting waiting_begins throughRelay
    ⟨takesUp_fair _, trivial, trivial, trivial, trivial, trivial, trivial⟩ i hi
  rcases hkept.2.2 _ hstage with ⟨-, hall, hwhole⟩
  exact ⟨i, hi, hall, hwhole⟩

/-- Whatever way it went, what the sender shows as done was all sent, is the file that was offered,
and was kept by the receiver. -/
theorem done_is_kept (P : Primitives) (id : OfferId) (offer : Offer) (w₀ : Passage)
    (hbegins : Begins id offer w₀) (moves : List Move)
    (hfair : Runs.Along (Passage.step P id) (Fair P id) w₀ moves) (o : Outgoing)
    (path : Option Path) (ho : (w₀.run P id moves).outgoing id = some o)
    (hdone : o.stage = .done path) :
    (Whole P offer (w₀.run P id moves).stream ∨ Whole P offer (w₀.run P id moves).relayed) ∧
      ∀ i, (w₀.run P id moves).incoming id = some i → ∃ kept, i.stage = .done (some kept) :=
  (run_sound (P := P) hbegins hfair).sender.done o path ho hdone

open Abandoned in
/-- A file that went straight from the phone to the laptop. -/
theorem done_straight : ∃ (i : Incoming) (path : Path),
    (waiting.run primitives file straight).incoming file = some i ∧
      i.stage = .done (some path) := by
  rcases records with ⟨-, -, -, hsent, hsome⟩
  rcases Option.map_eq_some_iff.mp hsent with ⟨o, ho, hdone⟩
  rcases Option.isSome_iff_exists.mp hsome with ⟨i, hi⟩
  rcases (done_is_kept primitives file offer waiting waiting_begins straight
    ⟨takesUp_fair _, trivial, trivial, trivial, trivial, trivial, trivial, trivial, trivial⟩ o none
    ho hdone).2 i hi with ⟨path, hkept⟩
  exact ⟨i, path, hi, hkept⟩

end Passage

end App
end Asli
