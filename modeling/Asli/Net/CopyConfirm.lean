import Asli.Logic.Runs
import Asli.Net.Rekeying
import Asli.Net.Spoken

/-!
# CopyConfirm — which answers confirm a copy

Frames arrive in order, so the answer to any ping shows that the relay has read everything written
before that ping.  A token is reported by the answer to its own ping or a later one; a copy is
confirmed only by the answer to its own.

* `newestCopy`, `answered` — what the traffic of a connection shows about a ping.
* `Confirmed` — what was read is neither held over nor still waited for.
* `round_cases` — one round, with the pong as the case that matters.
* `copies_confirmed_iff` — every copy that was read is confirmed, over a whole connection, exactly
  when no answer passes the ping of an unconfirmed copy.
-/

namespace Asli
namespace Net

open Logic
open Crypto (Primitives)

/-! ## What the traffic shows -/

/-- Follows the newest copy: whether its ping is still to come, and its ping. -/
def markWire (mark : Bool × Option Nat) : Wire → Bool × Option Nat
  | .text frame => if frame.isCopy then (true, none) else mark
  | .ping number => if mark.1 then (false, some number) else mark
  | .pong _ => mark

def copyMark (wire : List Wire) : Bool × Option Nat :=
  wire.foldl markWire (false, none)

/-- The ping written after the newest copy. -/
def newestCopy (wire : List Wire) : Option Nat :=
  (copyMark wire).2

/-- A ping was written, and later the answer to it or to a later ping was read. -/
def answered (ping : Nat) (wire : List Wire) : Prop :=
  ∃ before after number, wire = before ++ .ping ping :: after ∧ .pong number ∈ after ∧ ping ≤ number

/-- No answer that was read passed over the ping of a copy that still waited for one. -/
def InStep (wire : List Wire) : Prop :=
  ∀ before number after, wire = before ++ .pong number :: after →
    ∀ ping, newestCopy before = some ping → ¬ answered ping before → number ≤ ping

/-- A copy the relay has read is neither held over nor unconfirmed, and no token waits for an
answer that was read. -/
structure Confirmed (t : Talk) : Prop where
  copy : ∀ ping, newestCopy t.wire = some ping → answered ping t.wire →
    t.unconfirmed = none ∧ t.session.resend = none
  tokens : ∀ waiting ∈ t.confirm.tokens, ¬ answered waiting.1 t.wire

/-! ### Traffic, one item at a time -/

def Wire.isPong : Wire → Bool
  | .pong _ => true
  | _ => false

theorem copyMark_append (wire new : List Wire) :
    copyMark (wire ++ new) = new.foldl markWire (copyMark wire) :=
  List.foldl_append

theorem copyMark_pong (wire : List Wire) (number : Nat) :
    copyMark (wire ++ [.pong number]) = copyMark wire := by
  rw [copyMark_append]
  rfl

/-- Frames that belong to no copy do not move the mark. -/
theorem copyMark_plain {wire new : List Wire}
    (hnew : ∀ w ∈ new, ∃ frame, w = .text frame ∧ frame.isCopy = false) :
    copyMark (wire ++ new) = copyMark wire := by
  rw [copyMark_append]
  induction new with
  | nil => rfl
  | cons w new ih =>
      rcases hnew w List.mem_cons_self with ⟨frame, rfl, hframe⟩
      have hstay : markWire (copyMark wire) (.text frame) = copyMark wire := by
        rw [markWire, if_neg (by rw [hframe]; exact Bool.false_ne_true)]
      rw [List.foldl_cons, hstay]
      exact ih fun v hv => hnew v (List.mem_cons_of_mem _ hv)

/-- After the frames of a copy the mark waits for its ping. -/
theorem copyMark_copy {wire new : List Wire} (hne : new ≠ [])
    (hnew : ∀ w ∈ new, ∃ frame, w = .text frame ∧ frame.isCopy = true) :
    copyMark (wire ++ new) = (true, none) := by
  rw [copyMark_append]
  -- the last frame decides
  rcases List.eq_nil_or_concat new with rfl | ⟨front, w, rfl⟩
  · exact absurd rfl hne
  · rcases hnew w (by simp) with ⟨frame, rfl, hframe⟩
    rw [List.concat_eq_append, List.foldl_append]
    show markWire _ (.text frame) = _
    rw [markWire, if_pos hframe]

theorem answered_snoc {ping : Nat} {wire : List Wire} {w : Wire} :
    answered ping (wire ++ [w]) ↔
      answered ping wire ∨ (.ping ping ∈ wire ∧ ∃ number, w = .pong number ∧ ping ≤ number) := by
  constructor
  · rintro ⟨before, after, number, heq, hpong, hle⟩
    rcases Runs.snoc_split heq with ⟨rfl, -, -⟩ | ⟨front, rfl, rfl⟩
    · cases hpong
    · rcases List.mem_append.mp hpong with hpong | hpong
      · exact .inl ⟨before, front, number, rfl, hpong, hle⟩
      · exact .inr ⟨by simp, number, (List.mem_singleton.mp hpong).symm, hle⟩
  · rintro (⟨before, after, number, rfl, hpong, hle⟩ | ⟨hmem, number, rfl, hle⟩)
    · exact ⟨before, after ++ [w], number, by simp, List.mem_append_left _ hpong, hle⟩
    · rcases List.append_of_mem hmem with ⟨before, after, rfl⟩
      exact ⟨before, after ++ [.pong number], number, by simp, by simp, hle⟩

/-- Only an answer answers. -/
theorem answered_quiet {ping : Nat} {wire new : List Wire} (hnew : ∀ w ∈ new, w.isPong = false) :
    answered ping (wire ++ new) ↔ answered ping wire := by
  induction new generalizing wire with
  | nil => rw [List.append_nil]
  | cons w new ih =>
      have hw : ¬ (.ping ping ∈ wire ∧ ∃ number, w = .pong number ∧ ping ≤ number) := by
        rintro ⟨-, number, rfl, -⟩
        cases hnew _ List.mem_cons_self
      rw [List.append_cons, ih fun v hv => hnew v (List.mem_cons_of_mem _ hv), answered_snoc,
        or_iff_left hw]

theorem answered_mem {ping : Nat} {wire : List Wire} (h : answered ping wire) :
    .ping ping ∈ wire := by
  rcases h with ⟨before, after, number, rfl, -, -⟩
  simp

theorem inStep_nil : InStep [] := by
  intro before number after heq
  exact absurd heq.symm (List.append_ne_nil_of_right_ne_nil before (List.cons_ne_nil _ after))

theorem inStep_snoc {wire : List Wire} {w : Wire} :
    InStep (wire ++ [w]) ↔ InStep wire ∧ ∀ number, w = .pong number →
      ∀ ping, newestCopy wire = some ping → ¬ answered ping wire → number ≤ ping := by
  constructor
  · intro h
    refine ⟨fun before other after heq => ?_, fun number hw => h wire number [] (by rw [hw])⟩
    exact h before other (after ++ [w]) (by rw [heq, List.append_assoc, List.cons_append])
  · rintro ⟨h, hlast⟩ before other after heq
    rcases Runs.snoc_split heq with ⟨-, rfl, rfl⟩ | ⟨front, -, hwire⟩
    · exact hlast other rfl
    · exact h before other front hwire

theorem inStep_quiet {wire new : List Wire} (hnew : ∀ w ∈ new, w.isPong = false) :
    InStep (wire ++ new) ↔ InStep wire := by
  induction new generalizing wire with
  | nil => rw [List.append_nil]
  | cons w new ih =>
      rw [List.append_cons, ih fun v hv => hnew v (List.mem_cons_of_mem _ hv), inStep_snoc]
      refine and_iff_left fun number hw => ?_
      rw [hw] at hnew
      cases hnew _ List.mem_cons_self

theorem newestCopy_mem {wire : List Wire} {ping : Nat} (h : newestCopy wire = some ping) :
    .ping ping ∈ wire := by
  unfold newestCopy at h
  induction wire using List.reverseRecOn with
  | nil => cases h
  | append_singleton wire w ih =>
      rw [copyMark_append] at h
      cases w with
      | text frame =>
          change (markWire (copyMark wire) (.text frame)).2 = some ping at h
          unfold markWire at h
          dsimp only at h
          split at h
          · cases h
          · exact List.mem_append_left _ (ih h)
      | ping number =>
          change (markWire (copyMark wire) (.ping number)).2 = some ping at h
          unfold markWire at h
          dsimp only at h
          split at h
          · cases h
            simp
          · exact List.mem_append_left _ (ih h)
      | pong number => exact List.mem_append_left _ (ih h)

namespace Talk

variable {P : Primitives} {T : JsonText}

/-! ## The state against the traffic -/

/-- Between two steps of a live connection: what the state remembers of the copies and tokens is
what the traffic shows. -/
structure Exact (t : Talk) : Prop where
  pings : ∀ number, .ping number ∈ t.wire → number ≤ t.confirm.pings
  settled : (copyMark t.wire).1 = false
  fresh : newestCopy t.wire = none → t.confirm.copy = none ∧ t.unconfirmed = none
  waiting : ∀ ping, newestCopy t.wire = some ping → ¬ answered ping t.wire →
    t.confirm.copy = some ping ∧ t.unconfirmed.isSome
  read : ∀ ping, newestCopy t.wire = some ping → answered ping t.wire →
    t.confirm.copy = none ∧ t.unconfirmed = none
  resend : newestCopy t.wire ≠ none → t.session.resend = none
  tokens : ∀ waiting ∈ t.confirm.tokens, ¬ answered waiting.1 t.wire

theorem Exact.confirmed {t : Talk} (h : Exact t) : Confirmed t where
  copy ping hnewest hanswered :=
    ⟨(h.read ping hnewest hanswered).2, h.resend (by rw [hnewest]; exact Option.some_ne_none ping)⟩
  tokens := h.tokens

/-- What happens next to a live connection: it stays exact, or fails with what was read settled.
Nothing is read from the socket on the way. -/
structure Kept {α : Type} (t : Talk) (r : Talk × Except Error α) : Prop where
  wire : ∃ new, r.1.wire = t.wire ++ new ∧ ∀ w ∈ new, w.isPong = false
  ended : r.1.ended = t.ended
  ok : ∀ a, r.2 = .ok a → Exact r.1
  failed : ∀ e, r.2 = .error e → Confirmed r.1

theorem Kept.same {α : Type} {t : Talk} (h : Exact t) (result : Except Error α) :
    Kept t (t, result) where
  wire := ⟨[], (List.append_nil _).symm, fun _ hw => absurd hw List.not_mem_nil⟩
  ended := rfl
  ok _ _ := h
  failed _ _ := h.confirmed

theorem Kept.andThen {α β : Type} {t : Talk} {r : Talk × Except Error α} (h : Kept t r)
    {k : Talk → α → Talk × Except Error β} (hk : ∀ a, r.2 = .ok a → Kept r.1 (k r.1 a)) :
    Kept t (Talk.andThen r k) := by
  unfold Talk.andThen
  split
  next e herror => exact ⟨h.wire, h.ended, fun a heq => (by cases heq),
      fun _ _ => h.failed e herror⟩
  next a hok =>
    have hnext := hk a hok
    rcases h.wire with ⟨new, hwire, hnew⟩
    rcases hnext.wire with ⟨more, hmore, hquiet⟩
    refine ⟨⟨new ++ more, by rw [hmore, hwire, List.append_assoc], ?_⟩,
      hnext.ended.trans h.ended, hnext.ok, hnext.failed⟩
    intro w hw
    rcases List.mem_append.mp hw with hw | hw
    · exact hnew w hw
    · exact hquiet w hw

/-- Writing frames that belong to no copy, and changing fields that confirmation does not depend
on. -/
theorem Exact.quiet {t u : Talk} (h : Exact t) (hconfirm : u.confirm = t.confirm)
    (hunconfirmed : u.unconfirmed = t.unconfirmed)
    (hresend : u.session.resend = t.session.resend) {new : List Wire}
    (hwire : u.wire = t.wire ++ new)
    (hnew : ∀ w ∈ new, ∃ frame, w = .text frame ∧ frame.isCopy = false) : Exact u := by
  have hmark : copyMark u.wire = copyMark t.wire := by rw [hwire, copyMark_plain hnew]
  have hnewest : newestCopy u.wire = newestCopy t.wire := congrArg Prod.snd hmark
  have hanswered : ∀ ping, answered ping u.wire ↔ answered ping t.wire := by
    intro ping
    rw [hwire]
    refine answered_quiet fun w hw => ?_
    rcases hnew w hw with ⟨frame, rfl, -⟩
    rfl
  constructor
  · intro number hmem
    rw [hwire] at hmem
    rw [hconfirm]
    rcases List.mem_append.mp hmem with hmem | hmem
    · exact h.pings number hmem
    · rcases hnew _ hmem with ⟨frame, heq, -⟩
      cases heq
  · rw [hmark]
    exact h.settled
  · rw [hnewest, hconfirm, hunconfirmed]
    exact h.fresh
  · intro ping
    rw [hnewest, hanswered, hconfirm, hunconfirmed]
    exact h.waiting ping
  · intro ping
    rw [hnewest, hanswered, hconfirm, hunconfirmed]
    exact h.read ping
  · rw [hnewest, hresend]
    exact h.resend
  · rw [hconfirm]
    intro waiting hwaiting
    rw [hanswered]
    exact h.tokens waiting hwaiting

/-! ## Writing -/

/-- Only the socket was written to. -/
structure Wrote (t u : Talk) (new : List Wire) : Prop where
  session : u.session = t.session
  confirm : u.confirm = t.confirm
  unconfirmed : u.unconfirmed = t.unconfirmed
  ended : u.ended = t.ended
  wire : u.wire = t.wire ++ new

theorem Wrote.nothing (t : Talk) : Wrote t t [] :=
  ⟨rfl, rfl, rfl, rfl, (List.append_nil _).symm⟩

theorem write_cases (t : Talk) (w : Wire) :
    (∃ e, t.write w = (t, .error e)) ∨ ∃ u, t.write w = (u, .ok ()) ∧ Wrote t u [w] := by
  unfold write
  split
  · exact .inl ⟨_, rfl⟩
  · exact .inr ⟨_, rfl, rfl, rfl, rfl, rfl, rfl⟩

/-- The frames go out in order, all of them or up to the one the socket refuses. -/
theorem writeAll_wrote (t : Talk) (frames : List Message) :
    ∃ written : List Message, Wrote t (t.writeAll frames).1 (written.map Wire.text) ∧
      (∀ m ∈ written, m ∈ frames) ∧
      (∀ a, (t.writeAll frames).2 = .ok a → written = frames) := by
  induction frames generalizing t with
  | nil => exact ⟨[], Wrote.nothing t, fun _ h => h, fun _ _ => rfl⟩
  | cons frame frames ih =>
      unfold writeAll Talk.andThen
      rcases write_cases t (.text frame) with ⟨e, hwrite⟩ | ⟨u, hwrite, hwrote⟩
      · rw [hwrite]
        exact ⟨[], Wrote.nothing t, fun _ h => absurd h List.not_mem_nil, fun a h => by cases h⟩
      · rw [hwrite]
        dsimp only
        rcases ih u with ⟨written, hrest, hsub, hall⟩
        refine ⟨frame :: written, ?_, ?_, ?_⟩
        · refine ⟨hrest.session.trans hwrote.session, hrest.confirm.trans hwrote.confirm,
            hrest.unconfirmed.trans hwrote.unconfirmed, hrest.ended.trans hwrote.ended, ?_⟩
          rw [hrest.wire, hwrote.wire, List.append_assoc]
          rfl
        · intro m hm
          rcases List.mem_cons.mp hm with rfl | hm
          · exact List.mem_cons_self
          · exact List.mem_cons_of_mem _ (hsub m hm)
        · intro a h
          rw [hall a h]

/-- Frames of no copy. -/
theorem Exact.writeAll {t : Talk} (h : Exact t) {frames : List Message}
    (hframes : ∀ m ∈ frames, m.isCopy = false) : Kept t (t.writeAll frames) := by
  rcases writeAll_wrote t frames with ⟨written, hwrote, hsub, -⟩
  have hexact : Exact (t.writeAll frames).1 := by
    refine h.quiet hwrote.confirm hwrote.unconfirmed (by rw [hwrote.session]) hwrote.wire ?_
    intro w hw
    rcases List.mem_map.mp hw with ⟨m, hm, rfl⟩
    exact ⟨m, rfl, hframes m (hsub m hm)⟩
  refine ⟨⟨_, hwrote.wire, fun w hw => ?_⟩, hwrote.ended, fun _ _ => hexact,
    fun _ _ => hexact.confirmed⟩
  rcases List.mem_map.mp hw with ⟨m, -, rfl⟩
  rfl

/-- The next ping has a number no ping had before, and nothing answers it yet. -/
theorem fresh_unanswered {wire : List Wire} {pings : Nat}
    (hpings : ∀ number, Wire.ping number ∈ wire → number ≤ pings) :
    ¬ answered (pings + 1) (wire ++ [.ping (pings + 1)]) := by
  rw [answered_snoc]
  rintro (hbefore | ⟨-, number, heq, -⟩)
  · exact Nat.not_succ_le_self pings (hpings _ (answered_mem hbefore))
  · cases heq

theorem nextPing_cases (t : Talk) :
    (∃ u e, t.nextPing = (u, .error e) ∧ Wrote { t with confirm := u.confirm } u [] ∧
        u.confirm = { t.confirm with pings := t.confirm.pings + 1 }) ∨
      ∃ u, t.nextPing = (u, .ok ()) ∧
        Wrote { t with confirm := u.confirm } u [.ping (t.confirm.pings + 1)] ∧
        u.confirm = { t.confirm with pings := t.confirm.pings + 1 } := by
  unfold nextPing
  dsimp only
  rcases write_cases { t with confirm := { t.confirm with pings := t.confirm.pings + 1 } }
    (.ping (t.confirm.pings + 1)) with ⟨e, hwrite⟩ | ⟨u, hwrite, hwrote⟩
  · exact .inl ⟨_, e, hwrite, Wrote.nothing _, rfl⟩
  · have hconfirm : u.confirm = { t.confirm with pings := t.confirm.pings + 1 } := hwrote.confirm
    refine .inr ⟨u, hwrite, ?_, hconfirm⟩
    rw [hconfirm]
    exact hwrote

/-- A ping that no copy waits for changes nothing but the count. -/
theorem Exact.pinged {t u : Talk} (h : Exact t)
    (hwrote : Wrote { t with confirm := u.confirm } u [.ping (t.confirm.pings + 1)])
    (hconfirm : u.confirm = { t.confirm with pings := t.confirm.pings + 1 }) : Exact u := by
  have hwire : u.wire = t.wire ++ [.ping (t.confirm.pings + 1)] := hwrote.wire
  have hmark : copyMark u.wire = copyMark t.wire := by
    rw [hwire, copyMark_append]
    show markWire (copyMark t.wire) (.ping _) = _
    rw [markWire, if_neg (by rw [h.settled]; exact Bool.false_ne_true)]
  have hnewest : newestCopy u.wire = newestCopy t.wire := congrArg Prod.snd hmark
  have hanswered : ∀ ping, answered ping u.wire ↔ answered ping t.wire := by
    intro ping
    rw [hwire]
    exact answered_quiet fun w hw => by cases List.mem_singleton.mp hw; rfl
  have hunconfirmed : u.unconfirmed = t.unconfirmed := hwrote.unconfirmed
  have hsession : u.session = t.session := hwrote.session
  constructor
  · intro number hmem
    rw [hwire] at hmem
    rw [hconfirm]
    rcases List.mem_append.mp hmem with hmem | hmem
    · exact Nat.le_succ_of_le (h.pings number hmem)
    · cases List.mem_singleton.mp hmem
      exact Nat.le_refl _
  · rw [hmark]
    exact h.settled
  · rw [hnewest, hconfirm, hunconfirmed]
    exact h.fresh
  · intro ping
    rw [hnewest, hanswered, hconfirm, hunconfirmed]
    exact h.waiting ping
  · intro ping
    rw [hnewest, hanswered, hconfirm, hunconfirmed]
    exact h.read ping
  · rw [hnewest, hsession]
    exact h.resend
  · rw [hconfirm]
    intro waiting hwaiting
    rw [hanswered]
    exact h.tokens waiting hwaiting

theorem Exact.nextPing {t : Talk} (h : Exact t) : Kept t t.nextPing := by
  rcases nextPing_cases t with ⟨u, e, hping, hwrote, hconfirm⟩ | ⟨u, hping, hwrote, hconfirm⟩
  · -- the ping was counted and not written
    rw [hping]
    have hwire : u.wire = t.wire := hwrote.wire.trans (List.append_nil _)
    refine ⟨⟨[], hwrote.wire, fun _ hw => absurd hw List.not_mem_nil⟩, hwrote.ended,
      fun a heq => (by cases heq), fun _ _ => ⟨?_, ?_⟩⟩
    · show ∀ ping, newestCopy u.wire = some ping → answered ping u.wire →
        u.unconfirmed = none ∧ u.session.resend = none
      rw [hwire, hwrote.unconfirmed, hwrote.session]
      exact h.confirmed.copy
    · show ∀ waiting ∈ u.confirm.tokens, ¬ answered waiting.1 u.wire
      rw [hwire, hconfirm]
      exact h.tokens
  · rw [hping]
    refine ⟨⟨_, hwrote.wire, fun w hw => ?_⟩, hwrote.ended, fun _ _ => h.pinged hwrote hconfirm,
      fun _ heq => by cases heq⟩
    cases List.mem_singleton.mp hw
    rfl

/-- A connection that fails between the frames of a copy and its ping leaves no copy to be
confirmed. -/
theorem confirmed_between {t u : Talk} (h : Exact t) (htokens : u.confirm.tokens = t.confirm.tokens)
    {new : List Wire} (hwire : u.wire = t.wire ++ new) (hquiet : ∀ w ∈ new, w.isPong = false)
    (hnewest : newestCopy u.wire = none) : Confirmed u where
  copy ping hsome _ := by
    rw [hnewest] at hsome
    cases hsome
  tokens := by
    rw [htokens]
    intro waiting hwaiting
    rw [hwire, answered_quiet hquiet]
    exact h.tokens waiting hwaiting

/-! ## Sending -/

theorem await_copy {t : Talk} {event : LocalEvent} (h : event.isCopy = true) :
    t.await event = { t with
      confirm := { t.confirm with copy := some t.confirm.pings }
      unconfirmed := some event } := by
  cases event with
  | text text => rfl
  | image png => rfl
  | _ => cases h

theorem await_other {t : Talk} {event : LocalEvent} (h : event.isCopy = false) :
    t.await event = { t with
      confirm := { t.confirm with
        tokens := t.confirm.tokens ++
          (event.token.map fun token => (t.confirm.pings, token)).toList } } := by
  unfold await
  rw [if_neg (by rw [h]; exact Bool.false_ne_true)]
  dsimp only
  cases event.token with
  | none => rw [Option.map_none, Option.toList_none, List.append_nil]
  | some token => rfl

/-- An event other than a copy: its frames, and the ping its token waits for. -/
theorem Exact.sendOther {t : Talk} (h : Exact t) {event : LocalEvent}
    (hevent : event.isCopy = false)
    {frames : List Message} (hframes : ∀ m ∈ frames, m.isCopy = false) :
    Kept t (Talk.andThen (t.writeAll frames) fun t _ =>
      if frames = [] ∨ (event.isCopy = false ∧ event.token = none) then (t, .ok ())
      else Talk.andThen t.nextPing fun t _ => (t.await event, .ok ())) := by
  refine (h.writeAll hframes).andThen fun a hok => ?_
  have hexact := (h.writeAll hframes).ok a hok
  generalize (t.writeAll frames).1 = u at hexact
  split
  · exact Kept.same hexact _
  have hkept := hexact.nextPing
  rcases nextPing_cases u with ⟨v, e, hping, -, -⟩ | ⟨v, hping, hwrote, hconfirm⟩
  · rw [hping] at hkept ⊢
    exact ⟨hkept.wire, hkept.ended, fun a heq => (by cases heq), fun _ _ => hkept.failed e rfl⟩
  · rw [hping]
    have hv := hexact.pinged hwrote hconfirm
    have hwire : v.wire = u.wire ++ [.ping (u.confirm.pings + 1)] := hwrote.wire
    have hpings : v.confirm.pings = u.confirm.pings + 1 := by rw [hconfirm]
    show Kept u (v.await event, .ok ())
    rw [await_other hevent]
    refine ⟨⟨[_], hwire, fun w hw => by cases List.mem_singleton.mp hw; rfl⟩, hwrote.ended,
      fun _ _ => ⟨hv.pings, hv.settled, hv.fresh, hv.waiting, hv.read, hv.resend, ?_⟩,
      fun _ heq => by cases heq⟩
    intro waiting hwaiting
    rcases List.mem_append.mp hwaiting with hwaiting | hwaiting
    · exact hv.tokens waiting hwaiting
    · rcases Option.map_eq_some_iff.mp (Option.mem_toList.mp hwaiting) with ⟨token, -, rfl⟩
      show ¬ answered v.confirm.pings v.wire
      rw [hpings, hwire]
      exact fresh_unanswered hexact.pings

/-- A copy: its frames, and the ping that confirms it.  The copy takes the place of any older
one. -/
theorem Exact.sendCopy {t : Talk} (h : Exact t) (hresend : t.session.resend = none)
    {event : LocalEvent} (hevent : event.isCopy = true) {frames : List Message}
    (hframes : ∀ m ∈ frames, m.isCopy = true) :
    Kept t (Talk.andThen (t.writeAll frames) fun t _ =>
      if frames = [] ∨ (event.isCopy = false ∧ event.token = none) then (t, .ok ())
      else Talk.andThen t.nextPing fun t _ => (t.await event, .ok ())) := by
  rcases writeAll_wrote t frames with ⟨written, hwrote, hsub, hall⟩
  have htexts : ∀ w ∈ written.map Wire.text, ∃ m, w = .text m ∧ m.isCopy = true := by
    intro w hw
    rcases List.mem_map.mp hw with ⟨m, hm, rfl⟩
    exact ⟨m, rfl, hframes m (hsub m hm)⟩
  have hquiet : ∀ w ∈ written.map Wire.text, w.isPong = false := by
    intro w hw
    rcases htexts w hw with ⟨m, rfl, -⟩
    rfl
  -- once a frame of the copy is out, the mark waits for the ping
  have hmark : written ≠ [] → copyMark (t.writeAll frames).1.wire = (true, none) := by
    intro hne
    rw [hwrote.wire]
    exact copyMark_copy (by rwa [ne_eq, List.map_eq_nil_iff]) htexts
  have hnothing : written = [] → Exact (t.writeAll frames).1 := by
    rintro rfl
    exact h.quiet hwrote.confirm hwrote.unconfirmed (by rw [hwrote.session]) hwrote.wire
      fun w hw => absurd hw List.not_mem_nil
  generalize hu : t.writeAll frames = r at hwrote hall hmark hnothing
  obtain ⟨u, result⟩ := r
  unfold Talk.andThen
  cases result with
  | error e =>
      refine ⟨⟨_, hwrote.wire, hquiet⟩, hwrote.ended, fun a heq => (by cases heq), fun _ _ => ?_⟩
      by_cases hne : written = []
      · exact (hnothing hne).confirmed
      · refine confirmed_between h (by rw [hwrote.confirm]) hwrote.wire hquiet ?_
        rw [newestCopy, hmark hne]
  | ok a =>
  obtain rfl := hall a rfl
  dsimp only
  by_cases hne : written = []
  · rw [if_pos (.inl hne)]
    have hkept := Kept.same (hnothing hne) (.ok () : Except Error Unit)
    exact ⟨⟨_, hwrote.wire, hquiet⟩, hwrote.ended, hkept.ok, hkept.failed⟩
  · rw [if_neg (by
      rintro (hnone | ⟨hfalse, -⟩)
      · exact hne hnone
      · rw [hevent] at hfalse
        cases hfalse)]
    have hnewest : newestCopy u.wire = none := by rw [newestCopy, hmark hne]
    have hpings : ∀ number, Wire.ping number ∈ u.wire → number ≤ u.confirm.pings := by
      intro number hmem
      rw [hwrote.wire] at hmem
      rw [hwrote.confirm]
      rcases List.mem_append.mp hmem with hmem | hmem
      · exact h.pings number hmem
      · rcases htexts _ hmem with ⟨m, heq, -⟩
        cases heq
    rcases nextPing_cases u with ⟨v, e, hping, hwrite, hconfirm⟩ | ⟨v, hping, hwrite, hconfirm⟩
    · rw [hping]
      have hwire : v.wire = t.wire ++ written.map Wire.text := by
        rw [hwrite.wire, List.append_nil]
        exact hwrote.wire
      refine ⟨⟨_, hwire, hquiet⟩, hwrite.ended.trans hwrote.ended, fun a heq => (by cases heq),
        fun _ _ => ?_⟩
      refine confirmed_between h ?_ hwire hquiet ?_
      · rw [hconfirm, hwrote.confirm]
      · rw [hwire, ← hwrote.wire]
        exact hnewest
    · rw [hping]
      dsimp only
      rw [await_copy hevent]
      have hwire : v.wire = u.wire ++ [.ping (u.confirm.pings + 1)] := hwrite.wire
      have hlast : copyMark v.wire = (false, some (u.confirm.pings + 1)) := by
        rw [hwire, copyMark_append, hmark hne]
        rfl
      have hcount : v.confirm.pings = u.confirm.pings + 1 := by rw [hconfirm]
      have hfresh : ¬ answered (u.confirm.pings + 1) v.wire := by
        rw [hwire]
        exact fresh_unanswered hpings
      have hall : v.wire = t.wire ++ (written.map Wire.text ++ [.ping (u.confirm.pings + 1)]) := by
        rw [hwire, hwrote.wire, List.append_assoc]
      have hquiet' : ∀ w ∈ written.map Wire.text ++ [.ping (u.confirm.pings + 1)],
          w.isPong = false := by
        intro w hw
        rcases List.mem_append.mp hw with hw | hw
        · exact hquiet w hw
        · cases List.mem_singleton.mp hw
          rfl
      refine ⟨⟨_, hall, hquiet'⟩, hwrite.ended.trans hwrote.ended, fun _ _ => ?_,
        fun _ heq => by cases heq⟩
      have hsome : newestCopy v.wire = some (u.confirm.pings + 1) := by rw [newestCopy, hlast]
      constructor
      · intro number hmem
        show number ≤ v.confirm.pings
        change Wire.ping number ∈ v.wire at hmem
        rw [hwire] at hmem
        rw [hcount]
        rcases List.mem_append.mp hmem with hmem | hmem
        · exact Nat.le_succ_of_le (hpings number hmem)
        · cases List.mem_singleton.mp hmem
          exact Nat.le_refl _
      · show (copyMark v.wire).1 = false
        rw [hlast]
      · intro hnone
        change newestCopy v.wire = none at hnone
        rw [hsome] at hnone
        cases hnone
      · intro ping hping _
        change newestCopy v.wire = some ping at hping
        rw [hsome] at hping
        cases hping
        exact ⟨congrArg some hcount, rfl⟩
      · intro ping hping hanswered
        change newestCopy v.wire = some ping at hping
        rw [hsome] at hping
        cases hping
        exact absurd hanswered hfresh
      · intro _
        show v.session.resend = none
        rw [hwrite.session]
        show u.session.resend = none
        rw [hwrote.session]
        exact hresend
      · intro waiting hwaiting
        show ¬ answered waiting.1 v.wire
        change waiting ∈ v.confirm.tokens at hwaiting
        rw [hconfirm, hwrote.confirm] at hwaiting
        rw [hall, answered_quiet hquiet']
        exact h.tokens waiting hwaiting

theorem Kept.of_eq {α : Type} {t u : Talk} {r : Talk × Except Error α} (h : Kept u r)
    (hwire : u.wire = t.wire) (hended : u.ended = t.ended) : Kept t r where
  wire := hwire ▸ h.wire
  ended := h.ended.trans hended
  ok := h.ok
  failed := h.failed

/-- The body of the loop of `send_local`. -/
theorem Exact.sendOne {t : Talk} (h : Exact t) (hresend : t.session.resend = none)
    (event : LocalEvent) (draws : EventDraws) : Kept t (t.sendOne P event draws) := by
  have hcarries := Session.framesFor_carries (P := P) t.session event draws
  unfold Talk.sendOne
  generalize framesFor P t.session event draws = r at hcarries
  obtain ⟨s, reported, result⟩ := r
  have hu : Exact ({ t with session := s }.report reported) :=
    h.quiet rfl rfl hcarries.resend (List.append_nil _).symm fun w hw => absurd hw List.not_mem_nil
  have hkinds := hcarries.kinds
  dsimp only at hkinds ⊢
  cases result with
  | error e => exact (Kept.same hu _).of_eq rfl rfl
  | ok frames =>
      cases hcopy : event.isCopy with
      | false =>
          have hkept := hu.sendOther hcopy fun m hm => (hkinds frames rfl m hm).trans hcopy
          rw [hcopy] at hkept
          exact hkept.of_eq rfl rfl
      | true =>
          have hs : s.resend = none := hcarries.resend.trans hresend
          have hkept := hu.sendCopy hs hcopy fun m hm => (hkinds frames rfl m hm).trans hcopy
          rw [hcopy] at hkept
          exact hkept.of_eq rfl rfl

theorem await_session (t : Talk) (event : LocalEvent) : (t.await event).session = t.session := by
  unfold await
  dsimp only
  cases event.token <;> cases event.isCopy <;> rfl

theorem sendOne_resend (t : Talk) (event : LocalEvent) (draws : EventDraws) :
    (t.sendOne P event draws).1.session.resend = t.session.resend := by
  have hcarries := Session.framesFor_carries (P := P) t.session event draws
  unfold Talk.sendOne
  generalize framesFor P t.session event draws = r at hcarries
  obtain ⟨s, reported, result⟩ := r
  have hresend : s.resend = t.session.resend := hcarries.resend
  dsimp only
  cases result with
  | error e => exact hresend
  | ok frames =>
      rcases writeAll_wrote ({ t with session := s }.report reported) frames with
        ⟨written, hwrote, -, -⟩
      have hu : (({ t with session := s }.report reported).writeAll frames).1.session.resend =
          t.session.resend := by
        rw [hwrote.session]
        exact hresend
      unfold Talk.andThen
      dsimp only
      split
      · exact hu
      · split
        · exact hu
        · rcases nextPing_cases (({ t with session := s }.report reported).writeAll frames).1 with
            ⟨v, e, hping, hwrite, -⟩ | ⟨v, hping, hwrite, -⟩
          · rw [hping]
            show v.session.resend = _
            rw [hwrite.session]
            exact hu
          · rw [hping]
            show (v.await event).session.resend = _
            rw [await_session, hwrite.session]
            exact hu

theorem Exact.sendLocal {t : Talk} (h : Exact t) (hresend : t.session.resend = none)
    (batch : List (LocalEvent × EventDraws)) : Kept t (t.sendLocal P batch) := by
  induction batch generalizing t with
  | nil => exact Kept.same h _
  | cons e batch ih =>
      rcases e with ⟨event, draws⟩
      have hone := h.sendOne (P := P) hresend event draws
      refine hone.andThen fun a hok => ih (hone.ok a hok) ?_
      exact (sendOne_resend t event draws).trans hresend

theorem sendLocal_resend (t : Talk) (batch : List (LocalEvent × EventDraws)) :
    (t.sendLocal P batch).1.session.resend = t.session.resend := by
  induction batch generalizing t with
  | nil => rfl
  | cons e batch ih =>
      rcases e with ⟨event, draws⟩
      have hone := sendOne_resend (P := P) t event draws
      unfold Talk.sendLocal Talk.andThen
      split
      · exact hone
      · exact (ih _).trans hone

/-- A copy held over from the last connection goes first; after that nothing is held over while
local events are taken. -/
theorem Exact.sendHeldOver {t : Talk} (h : Exact t) (ready held : Bool) (draws : EventDraws) :
    Kept t (t.sendHeldOver P ready held draws) ∧
      ((ready && !held) = true → (t.sendHeldOver P ready held draws).1.session.resend = none) := by
  unfold Talk.sendHeldOver
  split
  next hgo =>
    have hu : Exact { t with session := t.session.takeResend.1 } :=
      { pings := h.pings, settled := h.settled, fresh := h.fresh, waiting := h.waiting,
        read := h.read, resend := fun _ => rfl, tokens := h.tokens }
    dsimp only
    split
    next event hevent =>
      have hkept := hu.sendLocal (P := P) rfl [(event, draws)]
      refine ⟨hkept.of_eq rfl rfl, fun _ => ?_⟩
      exact sendLocal_resend { t with session := t.session.takeResend.1 } [(event, draws)]
    · exact ⟨(Kept.same hu _).of_eq rfl rfl, fun _ => rfl⟩
  next hstay =>
    refine ⟨Kept.same h _, fun hgo => ?_⟩
    -- an unconfirmed copy was sent on this connection, and took the place of any held over
    rw [hgo, Bool.true_and] at hstay
    cases hnewest : newestCopy t.wire with
    | none =>
        rw [(h.fresh hnewest).2] at hstay
        exact absurd rfl hstay
    | some ping => exact h.resend (by rw [hnewest]; exact Option.some_ne_none ping)

/-! ## One branch of the select -/

theorem Exact.applyAction {t : Talk} (h : Exact t) (now : Nat) {action : Action}
    (haction : ∀ m ∈ framesOf [action], m.isCopy = false) : Kept t (t.applyAction now action) := by
  have hsame : ∀ {u : Talk} {result : Except Error (Option Disconnect)}, u.confirm = t.confirm →
      u.unconfirmed = t.unconfirmed → u.session = t.session → u.wire = t.wire →
      u.ended = t.ended → Kept t (u, result) := by
    intro u result hconfirm hunconfirmed hsession hwire hended
    have hu : Exact u := h.quiet hconfirm hunconfirmed (by rw [hsession])
      (hwire.trans (List.append_nil _).symm) fun w hw => absurd hw List.not_mem_nil
    exact (Kept.same hu result).of_eq hwire hended
  cases action with
  | send frame =>
      have hframe : frame.isCopy = false := haction frame List.mem_cons_self
      unfold Talk.applyAction
      dsimp only
      rcases write_cases t (.text frame) with ⟨e, hwrite⟩ | ⟨u, hwrite, hwrote⟩
      · rw [hwrite]
        exact hsame rfl rfl rfl rfl rfl
      · rw [hwrite]
        have hplain : ∀ w ∈ [Wire.text frame], ∃ m, w = .text m ∧ m.isCopy = false := by
          intro w hw
          cases List.mem_singleton.mp hw
          exact ⟨frame, rfl, hframe⟩
        have hu : Exact u :=
          h.quiet hwrote.confirm hwrote.unconfirmed (by rw [hwrote.session]) hwrote.wire hplain
        refine ⟨⟨_, hwrote.wire, fun w hw => ?_⟩, hwrote.ended, fun _ _ => hu,
          fun _ heq => by cases heq⟩
        cases List.mem_singleton.mp hw
        rfl
  | relayError code retryAfterMs =>
      unfold Talk.applyAction
      cases retryAfterMs <;> exact hsame rfl rfl rfl rfl rfl
  | _ => exact hsame rfl rfl rfl rfl rfl

theorem Exact.applyActions {t : Talk} (h : Exact t) (now : Nat) {actions : List Action}
    (hactions : ∀ m ∈ framesOf actions, m.isCopy = false) :
    Kept t (t.applyActions now actions) := by
  induction actions generalizing t with
  | nil => exact Kept.same h _
  | cons action actions ih =>
      have hcons : framesOf (action :: actions) = framesOf [action] ++ framesOf actions :=
        framesOf_append [action] actions
      rw [hcons] at hactions
      have hone : Kept t (t.applyAction now action) :=
        h.applyAction now fun m hm => hactions m (List.mem_append_left _ hm)
      refine hone.andThen fun finish hok => ?_
      have hnext := hone.ok finish hok
      cases finish with
      | some finish => exact Kept.same hnext _
      | none => exact ih hnext fun m hm => hactions m (List.mem_append_right _ hm)

/-- The number an answer carries. -/
def pongOf : Input → Option Nat
  | .pong payload => (ByteArr.ofBytes? 8 payload).map fun number => ofBe number.1
  | _ => none

/-- Every branch but the answer to a ping. -/
theorem Exact.select {t : Talk} (h : Exact t) (ready held : Bool) (now : Nat) {input : Input}
    (hinput : pongOf input = none)
    (hresend : (ready && !held) = true → t.session.resend = none) :
    Kept t (t.select P T ready held now input) := by
  have hsame : ∀ {u : Talk} {result : Except Error (Option Disconnect)}, u.confirm = t.confirm →
      u.unconfirmed = t.unconfirmed → u.session = t.session → u.wire = t.wire →
      u.ended = t.ended → Kept t (u, result) := by
    intro u result hconfirm hunconfirmed hsession hwire hended
    have hu : Exact u := h.quiet hconfirm hunconfirmed (by rw [hsession])
      (hwire.trans (List.append_nil _).symm) fun w hw => absurd hw List.not_mem_nil
    exact (Kept.same hu result).of_eq hwire hended
  cases input with
  | eof => exact Kept.same h _
  | failed detail => exact Kept.same h _
  | text frame nowMs draws =>
      rcases Session.handleFrame_resend (P := P) (T := T) t.session frame nowMs draws with
        ⟨hkeep, hcopies⟩
      have hu : Exact { t with
          lastHeard := now
          session := (t.session.handleFrame P T frame nowMs draws).1 } :=
        h.quiet rfl rfl hkeep (List.append_nil _).symm fun w hw => absurd hw List.not_mem_nil
      unfold Talk.select
      dsimp only
      split
      next actions hactions => exact (hu.applyActions now (hcopies actions hactions)).of_eq rfl rfl
      · exact (Kept.same hu _).of_eq rfl rfl
      · exact (Kept.same hu _).of_eq rfl rfl
  | close code => exact hsame rfl rfl rfl rfl rfl
  | pong payload =>
      -- a payload that is no number of ours
      have hnone : ByteArr.ofBytes? 8 payload = none := Option.map_eq_none_iff.mp hinput
      unfold Talk.select Talk.onPong
      dsimp only
      rw [hnone]
      exact hsame rfl rfl rfl rfl rfl
  | other => exact hsame rfl rfl rfl rfl rfl
  | recv event queued draws =>
      unfold Talk.select
      dsimp only
      split
      next hgo =>
        have hkept := fun batch => h.sendLocal (P := P) (hresend hgo) batch
        exact (hkept _).andThen fun a hok => Kept.same ((hkept _).ok a hok) _
      · exact Kept.same h _
  | recvClosed => exact Kept.same h _
  | tick =>
      unfold Talk.select
      dsimp only
      split
      · exact Kept.same h _
      · exact h.nextPing.andThen fun a hok => Kept.same (h.nextPing.ok a hok) _
  | holdOver =>
      unfold Talk.select
      dsimp only
      split <;> exact hsame rfl rfl rfl rfl rfl

/-! ## The answer to a ping -/

/-- Whether an answer may be read without passing the ping of a copy that waits for its own. -/
def Passable (wire : List Wire) (number : Nat) : Prop :=
  ∀ ping, newestCopy wire = some ping → ¬ answered ping wire → number ≤ ping

theorem onPong_eq {t : Talk} {payload : Bytes} {number : Nat}
    (hnumber : pongOf (.pong payload) = some number) :
    t.onPong payload = { t with
      wire := t.wire ++ [.pong number]
      confirm := { t.confirm with
        copy := if t.confirm.copy = some number then none else t.confirm.copy
        tokens := t.confirm.tokens.filter fun waiting => !decide (waiting.1 ≤ number) }
      unconfirmed := if t.confirm.copy = some number then none else t.unconfirmed
      events := t.events ++
        (t.confirm.tokens.filter fun waiting => decide (waiting.1 ≤ number)).map
          fun waiting => ClientEvent.sent waiting.2 } := by
  rcases Option.map_eq_some_iff.mp hnumber with ⟨bytes, hbytes, rfl⟩
  unfold onPong
  rw [hbytes]
  dsimp only
  by_cases hcopy : t.confirm.copy = some (ofBe bytes.1)
  · rw [if_pos hcopy, if_pos hcopy, if_pos hcopy]
  · rw [if_neg hcopy, if_neg hcopy, if_neg hcopy]

/-- An answer that passes over no waiting copy keeps the state exact. -/
theorem Exact.onPong {t : Talk} (h : Exact t) {payload : Bytes} {number : Nat}
    (hnumber : pongOf (.pong payload) = some number) (hpass : Passable t.wire number) :
    Exact (t.onPong payload) := by
  rw [onPong_eq hnumber]
  have hmark : copyMark (t.wire ++ [.pong number]) = copyMark t.wire := copyMark_pong t.wire number
  have hnewest : newestCopy (t.wire ++ [.pong number]) = newestCopy t.wire :=
    congrArg Prod.snd hmark
  constructor
  · intro other hmem
    rcases List.mem_append.mp hmem with hmem | hmem
    · exact h.pings other hmem
    · cases List.mem_singleton.mp hmem
  · exact hmark.symm ▸ h.settled
  · intro hnone
    rcases h.fresh (hnewest ▸ hnone) with ⟨hcopy, hunconfirmed⟩
    dsimp only
    rw [hcopy]
    exact ⟨rfl, hunconfirmed⟩
  · intro ping hping hwaits
    have hping : newestCopy t.wire = some ping := hnewest ▸ hping
    have hbefore : ¬ answered ping t.wire :=
      fun hbefore => hwaits (answered_snoc.mpr (.inl hbefore))
    rcases h.waiting ping hping hbefore with ⟨hcopy, hunconfirmed⟩
    -- its own answer would have ended the wait
    have hother : ¬ t.confirm.copy = some number := by
      intro hsame
      rw [hcopy] at hsame
      cases hsame
      exact hwaits (answered_snoc.mpr
        (.inr ⟨newestCopy_mem hping, number, rfl, Nat.le_refl number⟩))
    dsimp only
    rw [if_neg hother, if_neg hother]
    exact ⟨hcopy, hunconfirmed⟩
  · intro ping hping hanswered
    have hping : newestCopy t.wire = some ping := hnewest ▸ hping
    dsimp only
    by_cases hbefore : answered ping t.wire
    · rcases h.read ping hping hbefore with ⟨hcopy, hunconfirmed⟩
      rw [hcopy]
      exact ⟨rfl, hunconfirmed⟩
    · rcases answered_snoc.mp hanswered with hbefore' | ⟨-, other, heq, hle⟩
      · exact absurd hbefore' hbefore
      · cases heq
        -- at or above the ping, and it may not pass it
        have hsame : number = ping := Nat.le_antisymm (hpass ping hping hbefore) hle
        rw [if_pos (by rw [(h.waiting ping hping hbefore).1, hsame]),
          if_pos (by rw [(h.waiting ping hping hbefore).1, hsame])]
        exact ⟨rfl, rfl⟩
  · exact fun hsome => h.resend (hnewest ▸ hsome)
  · intro waiting hwaiting
    rcases List.mem_filter.mp hwaiting with ⟨hmem, hafter⟩
    rw [answered_snoc]
    rintro (hbefore | ⟨-, other, heq, hle⟩)
    · exact h.tokens waiting hmem hbefore
    · cases heq
      rw [decide_eq_true hle] at hafter
      cases hafter

/-- An answer that passes over a waiting copy leaves it unconfirmed though it was read. -/
theorem Exact.passed {t : Talk} (h : Exact t) {payload : Bytes} {number : Nat}
    (hnumber : pongOf (.pong payload) = some number) (hpass : ¬ Passable t.wire number) :
    ¬ Confirmed (t.onPong payload) := by
  unfold Passable at hpass
  push Not at hpass
  rcases hpass with ⟨ping, hping, hwaits, hlt⟩
  rcases h.waiting ping hping hwaits with ⟨hcopy, hunconfirmed⟩
  have hother : ¬ t.confirm.copy = some number := by
    intro hsame
    rw [hcopy] at hsame
    cases hsame
    exact Nat.lt_irrefl number hlt
  rw [onPong_eq hnumber]
  intro hconfirmed
  have hnewest : newestCopy (t.wire ++ [.pong number]) = some ping :=
    (congrArg Prod.snd (copyMark_pong t.wire number)).trans hping
  have hanswered : answered ping (t.wire ++ [.pong number]) :=
    answered_snoc.mpr (.inr ⟨newestCopy_mem hping, number, rfl, Nat.le_of_lt hlt⟩)
  have hnone := (hconfirmed.copy ping hnewest hanswered).1
  dsimp only at hnone
  rw [if_neg hother] at hnone
  rw [hnone] at hunconfirmed
  cases hunconfirmed

/-! ## One round -/

theorem confirmed_close {t : Talk} (h : Confirmed t) (outcome : Except Error Disconnect) :
    Confirmed (t.close outcome) where
  copy := by
    intro ping hping hanswered
    rcases h.copy ping hping hanswered with ⟨hunconfirmed, hresend⟩
    refine ⟨hunconfirmed, ?_⟩
    unfold Talk.close
    dsimp only
    rw [hunconfirmed]
    exact hresend
  tokens := h.tokens

/-- What one round of a live connection does: no answer is read and what was read is settled, or
one answer is read, after what was written before it. -/
theorem round_cases {t : Talk} (h : Exact t) (hlive : t.ended = none) (r : Round) :
    ((∃ new, (t.round P T r).wire = t.wire ++ new ∧ ∀ w ∈ new, w.isPong = false) ∧
        Confirmed (t.round P T r) ∧ ((t.round P T r).ended = none → Exact (t.round P T r))) ∨
      ∃ wire new number, (t.round P T r).wire = wire ++ [.pong number] ∧ wire = t.wire ++ new ∧
        (∀ w ∈ new, w.isPong = false) ∧ (Passable wire number → Exact (t.round P T r)) ∧
        (¬ Passable wire number → ¬ Confirmed (t.round P T r)) := by
  unfold Talk.round
  rw [hlive]
  rw [if_neg (by rw [Option.isSome_none]; exact Bool.false_ne_true)]
  dsimp only
  generalize (t.holdUntil.any fun until_ => decide (r.now < until_)) = held
  generalize t.session.isReady = ready
  rcases h.sendHeldOver (P := P) ready held r.resend with ⟨hfirst, hresend⟩
  generalize t.sendHeldOver P ready held r.resend = first at hfirst hresend
  rcases first with ⟨mid, result⟩
  cases result with
  | error e =>
      refine .inl ⟨hfirst.wire, confirmed_close (hfirst.failed e rfl) _, fun hended => ?_⟩
      cases hended
  | ok a =>
  have hmid : Exact mid := hfirst.ok a rfl
  rcases hfirst.wire with ⟨new, hnew, hquiet⟩
  dsimp only at hnew hresend ⊢
  cases hpong : pongOf r.input with
  | none =>
      have hnext := hmid.select (P := P) (T := T) ready held r.now hpong hresend
      generalize mid.select P T ready held r.now r.input = next at hnext
      rcases next with ⟨u, result⟩
      have hwire : ∃ new, u.wire = t.wire ++ new ∧ ∀ w ∈ new, w.isPong = false := by
        rcases hnext.wire with ⟨more, hmore, hmoreQuiet⟩
        refine ⟨new ++ more, ?_, fun w hw => ?_⟩
        · rw [← List.append_assoc, ← hnew]
          exact hmore
        · rcases List.mem_append.mp hw with hw | hw
          · exact hquiet w hw
          · exact hmoreQuiet w hw
      cases result with
      | error e =>
          refine .inl ⟨hwire, confirmed_close (hnext.failed e rfl) _, fun hended => ?_⟩
          cases hended
      | ok finish =>
          have hu : Exact u := hnext.ok finish rfl
          cases finish with
          | some finish =>
              refine .inl ⟨hwire, confirmed_close hu.confirmed _, fun hended => ?_⟩
              cases hended
          | none => exact .inl ⟨hwire, hu.confirmed, fun _ => hu⟩
  | some number =>
      cases hinput : r.input with
      | pong payload =>
          rw [hinput] at hpong
          have hheard : Exact { mid with lastHeard := r.now } :=
            hmid.quiet rfl rfl rfl (List.append_nil _).symm fun w hw => absurd hw List.not_mem_nil
          refine .inr ⟨mid.wire, new, number, ?_, hnew, hquiet, hheard.onPong hpong,
            hheard.passed hpong⟩
          show (Talk.onPong { mid with lastHeard := r.now } payload).wire = _
          rw [onPong_eq hpong]
      | _ => rw [hinput] at hpong; cases hpong

/-! ## A whole connection -/

/-- The connection after some rounds. -/
def after (P : Primitives) (T : JsonText) (t : Talk) (rounds : List Round) : Talk :=
  rounds.foldl (Talk.round P T) t

theorem round_ended {t : Talk} (h : t.ended.isSome = true) (r : Round) : t.round P T r = t := by
  unfold Talk.round
  rw [if_pos h]

theorem inStep_passable {wire : List Wire} {number : Nat} :
    InStep (wire ++ [.pong number]) ↔ InStep wire ∧ Passable wire number := by
  rw [inStep_snoc]
  refine and_congr_right fun _ => ⟨fun h => h number rfl, fun h other heq => ?_⟩
  cases heq
  exact h

/-- The hello went out, or the connection ended with it. -/
theorem start_cases (clientId : String) (s : Session) (accepts now : Nat) :
    ∃ new, (start clientId s accepts now).wire = new ∧ (∀ w ∈ new, w.isPong = false) ∧
      Exact (start clientId s accepts now) := by
  unfold start
  dsimp only
  have hempty : ∀ t : Talk, t.wire = [] → t.confirm = ⟨0, none, []⟩ → t.unconfirmed = none →
      Exact t := by
    intro t hwire hconfirm hunconfirmed
    have hnone : newestCopy t.wire = none := by rw [hwire]; rfl
    constructor
    · intro number hmem
      rw [hwire] at hmem
      cases hmem
    · rw [hwire]
      rfl
    · exact fun _ => ⟨by rw [hconfirm], hunconfirmed⟩
    · intro ping hping
      rw [hnone] at hping
      cases hping
    · intro ping hping
      rw [hnone] at hping
      cases hping
    · exact fun hsome => absurd hnone hsome
    · rw [hconfirm]
      exact fun _ hw => absurd hw List.not_mem_nil
  generalize hu :
    Talk.mk (s.helloFrame clientId).1 ⟨0, none, []⟩ none none now accepts [] [] none = u
  have hexact : Exact u := hempty u (by rw [← hu]) (by rw [← hu]) (by rw [← hu])
  have hwire : u.wire = [] := by rw [← hu]
  rcases write_cases u (.text (s.helloFrame clientId).2) with ⟨e, hwrite⟩ | ⟨v, hwrite, hwrote⟩
  · rw [hwrite]
    exact ⟨[], hwire, fun _ hw => absurd hw List.not_mem_nil, hempty _ hwire (by rw [← hu])
      (by rw [← hu])⟩
  · rw [hwrite]
    have hplain : ∀ w ∈ [Wire.text (s.helloFrame clientId).2], ∃ m, w = .text m ∧
        m.isCopy = false := by
      intro w hw
      cases List.mem_singleton.mp hw
      exact ⟨_, rfl, rfl⟩
    refine ⟨[_], hwrote.wire.trans (by rw [hwire, List.nil_append]), fun w hw => ?_,
      hexact.quiet hwrote.confirm hwrote.unconfirmed (by rw [hwrote.session]) hwrote.wire hplain⟩
    cases List.mem_singleton.mp hw
    rfl

/-- Over a whole connection, from its hello and whatever it meets: in every state what was read is
settled, exactly when no answer passes the ping of a copy that waits for its own. -/
theorem copies_confirmed_iff (P : Primitives) (T : JsonText) (clientId : String) (s : Session)
    (accepts now : Nat) (rounds : List Round) :
    (∀ past, past <+: rounds → Confirmed ((start clientId s accepts now).after P T past)) ↔
      ∀ past, past <+: rounds → InStep ((start clientId s accepts now).after P T past).wire := by
  rcases start_cases clientId s accepts now with ⟨hello, hwire, hquiet, hstart⟩
  generalize start clientId s accepts now = t at hwire hstart
  have hsnoc : ∀ (p : List Round → Prop) (rounds : List Round) (r : Round),
      (∀ past, past <+: rounds ++ [r] → p past) ↔
        (∀ past, past <+: rounds → p past) ∧ p (rounds ++ [r]) := by
    intro p rounds r
    constructor
    · intro hall
      exact ⟨fun past hpast => hall past (hpast.trans (List.prefix_append rounds [r])),
        hall _ (List.prefix_refl _)⟩
    · rintro ⟨hbefore, hlast⟩ past hpast
      rcases List.prefix_concat_iff.mp hpast with rfl | hpast
      · exact hlast
      · exact hbefore past hpast
  -- by induction on the rounds: in step so far, a connection that is still live is exact
  have hrun : ((∀ past, past <+: rounds → Confirmed (t.after P T past)) ↔
      ∀ past, past <+: rounds → InStep (t.after P T past).wire) ∧
      ((∀ past, past <+: rounds → InStep (t.after P T past).wire) →
        (t.after P T rounds).ended = none → Exact (t.after P T rounds)) := by
    induction rounds using List.reverseRecOn with
    | nil =>
        have hin : InStep t.wire := by
          rw [hwire, ← List.nil_append hello, inStep_quiet hquiet]
          exact inStep_nil
        refine ⟨iff_of_true ?_ ?_, fun _ _ => hstart⟩
        · intro past hpast
          rw [List.prefix_nil.mp hpast]
          exact hstart.confirmed
        · intro past hpast
          rw [List.prefix_nil.mp hpast]
          exact hin
    | append_singleton rounds r ih =>
        rcases ih with ⟨hiff, hexact⟩
        have hnext : t.after P T (rounds ++ [r]) = (t.after P T rounds).round P T r :=
          List.foldl_append
        rw [hsnoc, hsnoc, hiff, hnext]
        have hstep : (∀ past, past <+: rounds → InStep (t.after P T past).wire) →
            (Confirmed ((t.after P T rounds).round P T r) ↔
              InStep ((t.after P T rounds).round P T r).wire) ∧
            (InStep ((t.after P T rounds).round P T r).wire →
              ((t.after P T rounds).round P T r).ended = none →
                Exact ((t.after P T rounds).round P T r)) := by
          intro hin
          have hnow := hin rounds (List.prefix_refl rounds)
          cases hended : (t.after P T rounds).ended with
          | some outcome =>
              -- nothing happens any more
              rw [round_ended (by rw [hended]; rfl)]
              exact ⟨iff_of_true (hiff.mpr hin rounds (List.prefix_refl rounds)) hnow,
                fun _ => hexact hin⟩
          | none =>
              rcases round_cases (P := P) (T := T) (hexact hin hended) hended r with
                ⟨⟨new, hround, hsilent⟩, hconfirmed, hkept⟩ |
                  ⟨wire, new, number, hround, hmid, hsilent, hpass, hpassed⟩
              · rw [hround, inStep_quiet hsilent]
                exact ⟨iff_of_true hconfirmed hnow, fun _ => hkept⟩
              · have hmidStep : InStep wire := by
                  rw [hmid, inStep_quiet hsilent]
                  exact hnow
                rw [hround, inStep_passable]
                refine ⟨⟨fun h => ⟨hmidStep, ?_⟩, fun h => (hpass h.2).confirmed⟩,
                  fun h _ => hpass h.2⟩
                by_contra hno
                exact hpassed hno h
        exact ⟨and_congr_right fun hin => (hstep hin).1, fun h => (hstep h.1).2 h.2⟩
  exact hrun.1

/-! ## A copy whose answer is passed over

A copy goes out under ping 1, the timer sends ping 2, and the relay answers only the later one. -/

namespace SkippedPing

/-- Reads back the two frames that bring the session up. -/
def jsonText : JsonText where
  parse := fun frame =>
    if frame = Session.BringUp.challenge.toFrame then some Session.BringUp.challenge.toJson
    else if frame = Session.BringUp.authOk.toFrame then some Session.BringUp.authOk.toJson
    else none

def session : Session := Session.new Session.KeptBack.account Session.KeptBack.thisId 0

def draws : EventDraws where
  nowMs := 0
  frame := ⟨some (ByteArr.fill 16 3), some (ByteArr.fill 24 4)⟩
  card := ⟨none, none⟩
  imageId := none
  pieces := fun _ => none
  boxes := fun _ => ⟨none, none⟩

def rounds : List Round :=
  [.text Session.BringUp.challenge.toFrame 0 Session.BringUp.draws,
    .text Session.BringUp.authOk.toFrame 0 Session.BringUp.draws,
    .recv (.text "a") [] fun _ => draws, .tick, .pong (be64 2)].map fun input => ⟨0, draws, input⟩

def talk : Talk :=
  (start "" session 10 0).after Session.KeptBack.primitives jsonText rounds

/-- What the wire shows of the pings, in order: whether each is an answer, and its number. -/
def number : Wire → Option (Bool × Nat)
  | .ping n => some (false, n)
  | .pong n => some (true, n)
  | .text _ => none

theorem talk_ends : talk.unconfirmed = some (.text "a") ∧ newestCopy talk.wire = some 1 ∧
    talk.wire.map number =
      [none, none, none, some (false, 1), some (false, 2), some (true, 2)] := by
  decide +kernel

theorem wire_last {wire : List Wire}
    (h : wire.map number = [none, none, none, some (false, 1), some (false, 2), some (true, 2)]) :
    ∃ frames, wire = frames ++ .ping 1 :: [.ping 2, .pong 2] := by
  have hping : ∀ {w : Wire} {n : Nat}, number w = some (false, n) → w = .ping n := by
    intro w n hw
    cases w <;> cases hw
    rfl
  have hpong : ∀ {w : Wire} {n : Nat}, number w = some (true, n) → w = .pong n := by
    intro w n hw
    cases w <;> cases hw
    rfl
  rcases List.map_eq_cons_iff.mp h with ⟨a, wire₁, rfl, -, h⟩
  rcases List.map_eq_cons_iff.mp h with ⟨b, wire₂, rfl, -, h⟩
  rcases List.map_eq_cons_iff.mp h with ⟨c, wire₃, rfl, -, h⟩
  rcases List.map_eq_cons_iff.mp h with ⟨d, wire₄, rfl, hd, h⟩
  rcases List.map_eq_cons_iff.mp h with ⟨e, wire₅, rfl, he, h⟩
  rcases List.map_eq_cons_iff.mp h with ⟨f, wire₆, rfl, hf, h⟩
  rw [List.map_eq_nil_iff.mp h, hping hd, hping he, hpong hf]
  exact ⟨[a, b, c], rfl⟩

end SkippedPing

/-- A copy the relay has read can stay unconfirmed. -/
theorem copy_unconfirmed :
    ¬ ∀ (P : Primitives) (T : JsonText) (clientId : String) (s : Session) (accepts now : Nat)
      (rounds : List Round), Confirmed ((start clientId s accepts now).after P T rounds) := by
  intro hclaim
  have hconfirmed := hclaim Session.KeptBack.primitives SkippedPing.jsonText "" SkippedPing.session
    10 0 SkippedPing.rounds
  rcases SkippedPing.talk_ends with ⟨hheld, hnewest, hnumbers⟩
  rcases SkippedPing.wire_last hnumbers with ⟨frames, hwire⟩
  have hanswered : answered 1 SkippedPing.talk.wire :=
    ⟨frames, _, 2, hwire, by simp, by decide⟩
  have hnone := (hconfirmed.copy 1 hnewest hanswered).1
  exact absurd (hheld.symm.trans hnone) (Option.some_ne_none _)

end Talk
end Net
end Asli
