import Asli.App.Consent

/-!
# SameNetwork — files only on the local network

While the switch is on, an offer that would have to go through the relay is refused and an answer
that asks for one is turned down.  A transfer that was already going through the relay when the
switch was turned on is not looked at: its acknowledgements and the clock go on sending pieces.
-/

namespace Asli
namespace App

open Logic
open Crypto (Primitives OfferId Offer Answer)
open Net (LocalEvent)
open Core (DeviceId)

/-! ## The switch -/

namespace State

variable {P : Primitives} {s : State}

theorem cancelHere_sameNetworkOnly (s : State) (key : OfferId) :
    (s.cancelHere key).sameNetworkOnly = s.sameNetworkOnly := by
  have hsending : (s.cancelSending key).sameNetworkOnly = s.sameNetworkOnly := by
    unfold cancelSending
    split
    · rfl
    · split <;> rfl
  rw [cancelHere, cancelReceiving]
  split
  · exact hsending
  · split
    · exact hsending
    · exact hsending

theorem cancelAll_sameNetworkOnly (room : OfferId → Bool) (ids : List OfferId) (s : State) :
    (cancelAll room ids s).1.sameNetworkOnly = s.sameNetworkOnly := by
  induction ids generalizing s with
  | nil => rfl
  | cons key ids ih => exact (ih _).trans (cancelHere_sameNetworkOnly s key)

theorem onMessage_sameNetworkOnly (kind : Crypto.Kind) (body : Bytes) (d : MessageDraws) :
    (s.onMessage P kind body d).1.sameNetworkOnly = s.sameNetworkOnly := by
  cases kind with
  | fileOffer =>
      simp only [onMessage, onOffer]
      split
      · rfl
      · split
        · rfl
        · split <;> rfl
  | fileAnswer =>
      simp only [onMessage, onAnswer]
      split
      · rfl
      · split
        · rfl
        split
        · rfl
        split
        · rfl
        split <;> rfl
  | fileChunk =>
      simp only [onMessage, onChunk]
      split
      · split
        · rfl
        · split
          · rfl
          · split <;> rfl
      · rfl
  | fileAck =>
      simp only [onMessage, onAck]
      split
      · split
        · rfl
        · split
          · rfl
          · split <;> rfl
      · rfl
  | fileCancel =>
      simp only [onMessage, onCancel]
      split
      · rfl
      · exact cancelHere_sameNetworkOnly s _
  | about =>
      simp only [onMessage, onAbout]
      split
      · rfl
      · rfl
  | leave =>
      simp only [onMessage, onLeave]
      split <;> rfl
  | card | joinRequest | joinGrant | joinDecline | rekey | joinWhere | other _ => rfl

/-- Only the person turns the switch. -/
theorem step_sameNetworkOnly (e : Event) (he : ∀ on, e ≠ .setSameNetworkOnly on) :
    (s.step P e).1.sameNetworkOnly = s.sameNetworkOnly := by
  cases e with
  | setSameNetworkOnly on => exact absurd rfl (he on)
  | tick d =>
      simp only [step, tick, carryOn, giveUp]
      split
      · split <;> rfl
      · split <;> rfl
  | send path to_ metadata =>
      simp only [step, send]
      split
      · rfl
      · split
        · rfl
        split
        · rfl
        split
        · rfl
        split
        · rfl
        · rfl
  | setPreparing to_ path on =>
      simp only [step, setPreparing]
      split <;> rfl
  | offer path to_ conn peer content d =>
      simp only [step, offer]
      split
      · rfl
      · split <;> rfl
  | accept key folder d =>
      simp only [step, accept, acceptAs]
      split
      · rfl
      · split
        · rfl
        split
        · rfl
        split
        · rfl
        split
        · rfl
        split
        · rfl
        split <;> rfl
  | acceptAs key finalPath replace d =>
      simp only [step, acceptAs]
      split
      · rfl
      · split
        · rfl
        split
        · rfl
        split
        · rfl
        split
        · rfl
        split <;> rfl
  | answerThroughRelay key room =>
      simp only [step, answerThroughRelay]
      split
      · rfl
      · split
        · rfl
        split
        · rfl
        split <;> rfl
  | decline key room =>
      simp only [step, decline]
      split
      · rfl
      · split <;> rfl
  | directBegin key now =>
      simp only [step, directBegin]
      split
      · rfl
      · split <;> rfl
  | directProgress key sent now =>
      simp only [step, directProgress]
      split
      · rfl
      · split <;> rfl
  | directFinished key ended =>
      simp only [step, directFinished]
      split
      · rfl
      · split <;> rfl
  | directFailed key reason =>
      simp only [step, directFailed]
      split
      · rfl
      · split <;> rfl
  | directReceiving key now =>
      simp only [step, directReceiving]
      split <;> rfl
  | directPiece key data io now =>
      simp only [step, directPiece]
      split
      · rfl
      · split
        · rfl
        split <;> rfl
  | directReceiveFailed key reason =>
      simp only [step, directReceiveFailed]
      split
      · rfl
      · split <;> rfl
  | cancelTo device room => exact cancelAll_sameNetworkOnly room _ _
  | cancel key room => exact cancelHere_sameNetworkOnly s key
  | message kind body d => exact onMessage_sameNetworkOnly kind body d
  | sayLeaving nowMs room =>
      simp only [step, sayLeaving]
      split
      · rfl
      · split <;> rfl
  | sent token =>
      simp only [step, sent]
      split <;> rfl
  | attach | connected | disconnected | overQuota | clearFinished | askVersion | reorder
  | outside => rfl

end State

/-! ## Pieces -/

/-- A transfer through the relay has no piece left to send. -/
def Outgoing.Exhausted (o : Outgoing) : Prop :=
  o.stage.finished = false → o.to_ ≠ none → totalPieces o.offer ≤ o.next

/-- A pump of such a transfer sends nothing. -/
theorem Pumped.of_exhausted {draws : Nat → PieceDraw} {o o' : Outgoing} {out : List LocalEvent}
    (h : Pumped draws o o' out) (hout : o.to_ ≠ none → totalPieces o.offer ≤ o.next) :
    out = [] ∧ (o'.to_ ≠ none → totalPieces o'.offer ≤ o'.next) := by
  constructor
  · rw [List.eq_nil_iff_forall_not_mem]
    intro m hm
    rcases h.mem hm with ⟨i, hge, hlt, to_, data, body, hto, -⟩
    have hleft := (h.window i hge hlt).1
    have htotal := hout (by rw [hto]; exact nofun)
    omega
  · intro hto
    rw [h.to_eq] at hto
    rw [h.offer_eq]
    exact le_trans (hout hto) h.next

/-- While the switch is on, an event sends no piece of a transfer that has none left, and leaves it
with none. -/
theorem Sends.exhausted {P : Primitives} {s : State} {e : Event} {id : OfferId}
    {x y : Option Outgoing} {out : List LocalEvent} (h : Sends P s e id x y out)
    (hon : s.sameNetworkOnly = true) (haddressed : ∀ o, x = some o → o.Addressed)
    (hx : ∀ o, x = some o → o.Exhausted) : out = [] ∧ ∀ o', y = some o' → o'.Exhausted := by
  cases h with
  | absent => exact ⟨rfl, fun _ hy => nomatch hy⟩
  | offered =>
      refine ⟨rfl, ?_⟩
      intro o' hy hlive hto
      cases hy
      exact absurd rfl hto
  | cleared => exact ⟨rfl, fun _ hy => nomatch hy⟩
  | kept goneSince =>
      refine ⟨rfl, ?_⟩
      intro o' hy
      cases hy
      exact (hx _ rfl :)
  | stopped stage goneSince hstops hlive hstopped =>
      refine ⟨rfl, ?_⟩
      intro o' hy hlive' hto
      cases hy
      exact (hx _ rfl hlive hto :)
  | refused stage he hanswer hopen hrefused hstopped =>
      refine ⟨rfl, ?_⟩
      intro o' hy hlive hto
      cases hy
      have hnone := (Outgoing.forRelay_to _).trans ((haddressed _ rfl).unanswered hopen)
      exact absurd hnone hto
  | answered he hanswer hopen haccepted hlocal =>
      rw [hon] at hlocal
      cases hlocal
  | acked he hread hid hlive hstate hpump =>
      have hbefore := hx _ rfl hlive
      rcases hpump.of_exhausted hbefore with ⟨hout, hafter⟩
      refine ⟨hout, ?_⟩
      intro o' hy hlive'
      cases hy
      exact hafter
  | pumped he hmoving hpump =>
      rcases hpump.of_exhausted (hx _ rfl (Stage.unfinished_of_moving hmoving))
        with ⟨hout, hafter⟩
      refine ⟨hout, ?_⟩
      intro o' hy hlive'
      cases hy
      exact hafter
  | confirmed | damaged | delivered =>
      refine ⟨rfl, ?_⟩
      intro o' hy hlive
      cases hy
      cases hlive
  | begun he hoffered =>
      refine ⟨rfl, ?_⟩
      intro o' hy hlive hto
      cases hy
      exact absurd ((haddressed _ rfl).unanswered (Or.inl hoffered)) hto
  | progressed he hlive hdirect =>
      refine ⟨rfl, ?_⟩
      intro o' hy hlive' hto
      cases hy
      exact absurd ((haddressed _ rfl).unanswered (Or.inr ⟨hdirect, hlive⟩)) hto

/-! ## Answers -/

theorem answerOf?_ackMessage (i : Incoming) (received : Nat) (state : Crypto.AckState) :
    answerOf? (ackMessage i received state) = none := rfl

theorem Incoming.owes_noAnswer {i : Incoming} {owed : Option (Nat × Crypto.AckState)}
    {replies : List LocalEvent} (h : i.Owes owed replies) {m : LocalEvent} (hm : m ∈ replies) :
    answerOf? m = none := by
  rcases h with ⟨-, rfl⟩ | ⟨received, state, -, -, rfl⟩
  · cases hm
  · rw [List.mem_singleton.mp hm]
    exact answerOf?_ackMessage i received state

/-- While the switch is on, no answer that goes out accepts. -/
theorem Receives.noAcceptance {P : Primitives} {s : State} {disk : Disk} {e : Event} {id : OfferId}
    {x y : Option Incoming} {replies : List LocalEvent} (h : Receives P s disk e id x y replies)
    (hon : s.sameNetworkOnly = true) {m : LocalEvent} (hm : m ∈ replies) {a : Answer}
    (ha : answerOf? m = some a) : a.accepted = false := by
  have howed : answerOf? m = none → a.accepted = false := by
    intro hnone
    rw [hnone] at ha
    cases ha
  cases h with
  | absent | offered | cleared | directed | direct => cases hm
  | kept goneSince howes => exact howed (Incoming.owes_noAnswer howes hm)
  | stopped stage hstops hlive hstopped hgone howes => exact howed (Incoming.owes_noAnswer howes hm)
  | offline why goneSince he hoffered howes => exact howed (Incoming.owes_noAnswer howes hm)
  | declined he hoffered hreplies =>
      rcases hreplies m hm with ⟨link, hanswer⟩
      rcases hanswer.answerOf with ⟨replyTo, -, hread⟩
      rw [hread] at ha
      cases ha
      rfl
  | accepted he hoffered hlink hanswered =>
      rcases hanswered with ⟨-, rfl⟩ | ⟨-, hlocal, -⟩
      · cases hm
      · rw [hon] at hlocal
        cases hlocal
  | asked he hfirst hdirect hlink hlocal =>
      rw [hon] at hlocal
      cases hlocal
  | taken he hpiece htook hreply =>
      rcases hreply with ⟨-, -, rfl⟩ | ⟨-, -, rfl⟩
      · rw [List.mem_singleton.mp hm] at howed
        exact howed (answerOf?_ackMessage _ _ _)
      · cases hm

/-! ## Runs -/

/-- The switch is turned on only while no transfer through the relay has a piece left to send. -/
def SwitchedBetween (s : State) (e : Event) : Prop :=
  e = .setSameNetworkOnly true → ∀ id o, s.sending.get? id = some o → o.Exhausted

/-- What holds after every run that turns the switch so. -/
structure LocalOnly (s : State) : Prop where
  keyed : s.WellKeyed
  waiting : ∀ id o, s.sending.get? id = some o → o.Waiting
  addressed : ∀ id o, s.sending.get? id = some o → o.Addressed
  exhausted : s.sameNetworkOnly = true → ∀ id o, s.sending.get? id = some o → o.Exhausted

namespace State

variable {P : Primitives} {s : State}

theorem default_localOnly (devices : Registry) (disk : Disk) :
    LocalOnly (.default devices disk) where
  keyed := default_wellKeyed devices disk
  waiting := fun _ _ hget => nomatch hget
  addressed := fun _ _ hget => nomatch hget
  exhausted := nofun

theorem step_localOnly (h : LocalOnly s) (e : Event) (hswitch : SwitchedBetween s e) :
    LocalOnly (s.step P e).1 := by
  have hsends : ∀ id o', (s.step P e).1.sending.get? id = some o' →
      ∃ out, Sends P s e id (s.sending.get? id) (some o') out := by
    intro id o' hget'
    have hsends := step_sends (P := P) h.keyed e id
    rw [hget'] at hsends
    exact ⟨_, hsends⟩
  refine ⟨step_wellKeyed h.keyed e, ?_, ?_, ?_⟩
  · intro id o' hget'
    rcases hsends id o' hget' with ⟨out, hsend⟩
    exact hsend.waiting (h.waiting id)
  · intro id o' hget'
    rcases hsends id o' hget' with ⟨out, hsend⟩
    exact (hsend.addressed rfl (h.keyed.1 id) (h.waiting id) (h.addressed id)).1
  · intro hafter id o' hget'
    by_cases he : ∃ on, e = .setSameNetworkOnly on
    · -- turned on just now
      rcases he with ⟨on, rfl⟩
      have hon : on = true := hafter
      rw [hon] at hswitch
      exact hswitch rfl id o' hget'
    · rw [step_sameNetworkOnly e fun on heq => he ⟨on, heq⟩] at hafter
      rcases hsends id o' hget' with ⟨out, hsend⟩
      exact (hsend.exhausted hafter (h.addressed id) (h.exhausted hafter id)).2 o' rfl

/-- In every run that turns Same Network Only on only while no transfer through the relay has a
piece left to send, no piece and no acceptance goes into the queue while it is on. -/
theorem same_network_only_kept (P : Primitives) (devices : Registry) (disk : Disk)
    (es : List Event) (e : Event)
    (hswitch : Runs.Along (fun (s : State) e => (s.step P e).1) SwitchedBetween
      (.default devices disk) es)
    (hon : ((State.default devices disk).run P es).sameNetworkOnly = true) :
    ∀ m ∈ (((State.default devices disk).run P es).step P e).2,
      isChunk m = false ∧ ∀ a, answerOf? m = some a → a.accepted = false := by
  have hlocal : LocalOnly ((State.default devices disk).run P es) :=
    Runs.invariant (fun (s : State) e => (s.step P e).1) LocalOnly
      (fun s e h hswitch => step_localOnly h e hswitch) es (default_localOnly devices disk) hswitch
  intro m hm
  constructor
  · by_contra hchunk
    rw [Bool.not_eq_false] at hchunk
    rcases mem_piecesOf hm hchunk with ⟨id, hmem⟩
    have hsends := step_sends (P := P) hlocal.keyed e id
    rw [(hsends.exhausted hon (hlocal.addressed id) (hlocal.exhausted hon id)).1] at hmem
    cases hmem
  · intro a ha
    have hmem : m ∈ repliesOf a.offerId (((State.default devices disk).run P es).step P e).2 := by
      refine List.mem_filter.mpr ⟨hm, ?_⟩
      rw [IsReply, ha, Option.any_some, decide_eq_true rfl, Bool.or_true]
    exact (step_receives (P := P) hlocal.keyed e a.offerId).noAcceptance hon hmem ha

end State

/-! ## Turned on under way

The laptop accepts while the queue is full, the switch is turned on, and the next tick sends the
piece. -/

namespace OneFile

def switchedWaiting : List Event :=
  offered ++ [.setSameNetworkOnly true]

def switchedOn : List Event :=
  offered ++ [accepted false, .setSameNetworkOnly true]

def tick : Event :=
  .tick ⟨0, fun _ => (draws true).pieces, fun _ => true⟩

end OneFile

open OneFile in
/-- The switch turned on while the offer waits: the acceptance that comes then is
only called off. -/
theorem State.switched_while_offered :
    ∃ m ∈ ((start.run primitives switchedWaiting).step primitives (accepted true)).2,
      isChunk m = false ∧ ∀ a, answerOf? m = some a → a.accepted = false := by
  have hsome : 0 < ((start.run primitives switchedWaiting).step primitives
      (accepted true)).2.length := by
    decide +kernel
  rcases List.exists_mem_of_length_pos hsome with ⟨m, hm⟩
  refine ⟨m, hm, ?_⟩
  refine State.same_network_only_kept primitives OneFile.devices Table.empty switchedWaiting
    (accepted true) ?_ (by decide +kernel) m hm
  refine ⟨nofun, nofun, nofun, ?_, trivial⟩
  intro _ id o hget _ hto
  have hunanswered : ∀ r ∈ (start.run primitives offered).sending.entries, r.2.to_ = none := by
    decide +kernel
  exact absurd (hunanswered _ (Table.get?_eq_some.mp hget)) hto

open OneFile in
/-- The switch turned on while a transfer goes through the relay: the next tick sends a piece. -/
theorem State.switched_under_way :
    ¬ ∀ (P : Primitives) (devices : Registry) (disk : Disk) (es : List Event) (e : Event),
      ((State.default devices disk).run P es).sameNetworkOnly = true →
      ∀ m ∈ (((State.default devices disk).run P es).step P e).2,
        isChunk m = false ∧ ∀ a, answerOf? m = some a → a.accepted = false := by
  intro hclaim
  have hsent : piece ∈ ((start.run primitives switchedOn).step primitives OneFile.tick).2 := by
    decide +kernel
  have hkept := hclaim primitives OneFile.devices Table.empty switchedOn OneFile.tick
      (by decide +kernel)
    piece hsent
  exact absurd hkept.1 (by decide)

end App
end Asli
