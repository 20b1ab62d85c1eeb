import Asli.Relay.HandshakeSteps

/-!
# Handshake — who gets into a room, and whom a frame reaches

`Authentic` is the invariant of the handshake that every run of the relay keeps, and
`handshake_safety` what follows from it for the connections of a room.
-/

namespace Asli
namespace Relay

open Logic Crypto

/-- The connection has passed the handshake. -/
def ReadyAt (r : RelayState) (h : Handle) : Prop :=
  ∃ s ∈ r.sessions, s.handle = h ∧ s.state = .ready

/-! ## Runs -/

section Runs

variable (host : Host) (start : Int)

/-- The relay after a run. -/
def relayAt (run : List (Env × Event)) : RelayState :=
  after host (createRelay host.config start) run

/-- What the relay does at the event `x` that comes after `run`. -/
def sentAt (run : List (Env × Event)) (x : Env × Event) : List Effect :=
  (step host (relayAt host start run) x).2

/-- How many signatures a run checks for the connection. -/
def checksOver (h : Handle) : List (Env × Event) → RelayState → Nat
  | [], _ => 0
  | x :: run, r => checks h (step host r x).2 + checksOver h run (step host r x).1

theorem relayAt_snoc (run : List (Env × Event)) (x : Env × Event) :
    relayAt host start (run ++ [x]) = (step host (relayAt host start run) x).1 := by
  unfold relayAt after
  rw [List.foldl_append]
  rfl

theorem checksOver_snoc (h : Handle) (run : List (Env × Event)) (x : Env × Event) (r : RelayState) :
    checksOver host h (run ++ [x]) r =
      checksOver host h run r + checks h (step host (after host r run) x).2 := by
  induction run generalizing r with
  | nil => exact Nat.add_comm _ _
  | cons y run ih =>
      calc checksOver host h (y :: run ++ [x]) r
          = checks h (step host r y).2 + checksOver host h (run ++ [x]) (step host r y).1 := rfl
        _ = checks h (step host r y).2 + (checksOver host h run (step host r y).1 +
              checks h (step host (after host (step host r y).1 run) x).2) := by rw [ih]
        _ = checksOver host h (y :: run) r + checks h (step host (after host r (y :: run)) x).2 :=
            (Nat.add_assoc _ _ _).symm

/-- How many signatures a run of the relay has checked for the connection. -/
def checkedFor (h : Handle) (run : List (Env × Event)) : Nat :=
  checksOver host h run (createRelay host.config start)

/-- The connection `h` got the challenge for its hello at some event of the run, with this nonce. -/
def ChallengedIn (run : List (Env × Event)) (h : Handle) (nonceS : ServerNonce) : Prop :=
  ∃ earlier y later, run = earlier ++ y :: later ∧ Greeted host y h (sentAt host start earlier y) ∧
    y.1.nonce = nonceS

/-- Somebody's frame was handed to the connection `b` at some event of the run. -/
def HandedIn (run : List (Env × Event)) (b : Handle) (raw : String) : Prop :=
  ∃ earlier y later a, run = earlier ++ y :: later ∧
    Effect.forward a b raw ∈ sentAt host start earlier y

variable {host start}

theorem ChallengedIn.snoc {run : List (Env × Event)} {h : Handle} {nonceS : ServerNonce}
    (hc : ChallengedIn host start run h nonceS) (x : Env × Event) :
    ChallengedIn host start (run ++ [x]) h nonceS := by
  rcases hc with ⟨earlier, y, later, rfl, hgreeted, hnonce⟩
  refine ⟨earlier, y, later ++ [x], ?_, hgreeted, hnonce⟩
  rw [List.append_assoc, List.cons_append]

theorem HandedIn.snoc {run : List (Env × Event)} {b : Handle} {raw : String}
    (hh : HandedIn host start run b raw) (x : Env × Event) :
    HandedIn host start (run ++ [x]) b raw := by
  rcases hh with ⟨earlier, y, later, a, rfl, hforward⟩
  refine ⟨earlier, y, later ++ [x], a, ?_, hforward⟩
  rw [List.append_assoc, List.cons_append]

theorem HandedIn.last {run : List (Env × Event)} {x : Env × Event} {a b : Handle} {raw : String}
    (h : Effect.forward a b raw ∈ sentAt host start run x) :
    HandedIn host start (run ++ [x]) b raw :=
  ⟨run, x, [], a, rfl, h⟩

/-- The invariant of the handshake, over whole runs. -/
structure Authentic (host : Host) (start : Int) (run : List (Env × Event)) : Prop where
  numbered : WellNumbered (relayAt host start run)
  challenged : ∀ s ∈ (relayAt host start run).sessions, s.state = .challenged →
    ∀ nonceS, s.issued = some nonceS → ChallengedIn host start run s.handle nonceS
  pending : ∀ s ∈ (relayAt host start run).sessions, ∀ raw, s.pendingClip = some raw →
    s.state = .ready ∧ HandedIn host start run s.handle raw
  checkOnce : ∀ h, checkedFor host start h run ≤ 1
  /-- An open connection that is not ready has not used its one check. -/
  unchecked : ∀ s ∈ (relayAt host start run).sessions, s.isOpen = true → s.state ≠ .ready →
    checkedFor host start s.handle run = 0
  future : ∀ h, (relayAt host start run).nextHandle ≤ h → checkedFor host start h run = 0

theorem authentic_nil : Authentic host start [] :=
  { numbered := ⟨List.nodup_nil, fun _ hs => absurd hs List.not_mem_nil⟩
    challenged := fun _ hs => absurd hs List.not_mem_nil
    pending := fun _ hs => absurd hs List.not_mem_nil
    checkOnce := fun _ => Nat.zero_le 1
    unchecked := fun _ _ _ _ => rfl
    future := fun _ _ => rfl }

/-- A ready session stays as it is. -/
theorem Moved.of_ready {x : Env × Event} {out : List Effect} {s s' : Session}
    (h : Moved host x out s s') (hready : s.state = .ready) : s'.state = .ready := by
  cases h.phase with
  | same hconn hstate hissued => exact hstate.trans hready
  | challenged hstate => exact nomatch hstate.symm.trans hready
  | refused hstate => exact nomatch hstate.symm.trans hready
  | readied nonceS hstate => exact nomatch hstate.symm.trans hready

/-- A session that is not ready was not ready before. -/
theorem Moved.not_ready {x : Env × Event} {out : List Effect} {s s' : Session}
    (h : Moved host x out s s') (hnot : s'.state ≠ .ready) : s.state ≠ .ready :=
  fun hready => hnot (h.of_ready hready)

theorem authentic_snoc {run : List (Env × Event)} (h : Authentic host start run)
    (x : Env × Event) : Authentic host start (run ++ [x]) := by
  have hstep : Stepped host x (relayAt host start run) (relayAt host start (run ++ [x]))
      (sentAt host start run x) := by
    rw [relayAt_snoc]
    exact step_stepped h.numbered
  have hcount : ∀ h', checkedFor host start h' (run ++ [x]) =
      checkedFor host start h' run + checks h' (sentAt host start run x) := fun h' =>
    checksOver_snoc host h' run x _
  -- a connection that has a signature checked now had none checked before
  have hfirst : ∀ h', checks h' (sentAt host start run x) ≠ 0 →
      checkedFor host start h' run = 0 := by
    intro h' hne
    rcases (hstep.checkUsed h' hne).1 with ⟨s, hs, rfl, hopen, hstate⟩
    refine h.unchecked s hs hopen ?_
    rw [hstate]
    exact fun heq => nomatch heq
  refine
    { numbered := hstep.numbered
      challenged := ?_
      pending := ?_
      checkOnce := ?_
      unchecked := ?_
      future := ?_ }
  · intro s' hs' hstate' nonceS hissued'
    rcases hstep.sessions s' hs' with hfresh | ⟨s, hs, hmoved⟩
    · exact nomatch hfresh.state.symm.trans hstate'
    · rw [hmoved.handle]
      cases hmoved.phase with
      | same hconn hstate hissued =>
          exact (h.challenged s hs (hstate ▸ hstate') nonceS (hissued ▸ hissued')).snoc x
      | challenged hstate _ hissued hgreeted =>
          refine ⟨run, x, [], rfl, hgreeted, ?_⟩
          exact Option.some.inj (hissued.symm.trans hissued')
      | refused hstate _ hissued =>
          rcases hissued with hkept | hgone
          · exact (h.challenged s hs hstate nonceS (hkept ▸ hissued')).snoc x
          · exact nomatch hgone.symm.trans hissued'
      | readied _ _ _ hready => exact nomatch hready.symm.trans hstate'
  · intro s' hs' raw hraw
    rcases hstep.sessions s' hs' with hfresh | ⟨s, hs, hmoved⟩
    · exact nomatch hfresh.pending.symm.trans hraw
    · rw [hmoved.handle]
      rcases hmoved.pending raw hraw with hold | ⟨a, hforward⟩
      · rcases h.pending s hs raw hold with ⟨hready, hhanded⟩
        exact ⟨hmoved.of_ready hready, hhanded.snoc x⟩
      · -- a clip is parked only for a ready connection
        rcases (hstep.forward a s.handle raw hforward).2 with
          ⟨_, _, p, hp, _, hhandle, _, hready, _, _⟩
        rcases h.numbered.eq_of_handle hp hs hhandle with rfl
        exact ⟨hmoved.of_ready hready, HandedIn.last hforward⟩
  · intro h'
    rw [hcount h']
    by_cases hnone : checks h' (sentAt host start run x) = 0
    · rw [hnone]
      exact h.checkOnce h'
    · rw [hfirst h' hnone, Nat.zero_add]
      exact hstep.checkOnce h'
  · intro s' hs' hopen' hstate'
    rw [hcount s'.handle]
    have hnow : checks s'.handle (sentAt host start run x) = 0 := by
      by_contra hne
      exact hstate' ((hstep.checkUsed _ hne).2 s' hs' rfl hopen')
    rw [hnow, Nat.add_zero]
    rcases hstep.sessions s' hs' with hfresh | ⟨s, hs, hmoved⟩
    · exact h.future _ (Nat.le_of_eq hfresh.handle.symm)
    · rw [hmoved.handle]
      exact h.unchecked s hs (hmoved.open_ hopen') (hmoved.not_ready hstate')
  · intro h' hle
    have hle' : (relayAt host start run).nextHandle ≤ h' := Nat.le_trans hstep.next hle
    rw [hcount h', h.future h' hle', Nat.zero_add]
    by_contra hne
    rcases (hstep.checkUsed h' hne).1 with ⟨s, hs, rfl, -, -⟩
    exact absurd (h.numbered.bounded s hs) (Nat.not_lt.mpr hle')

/-- Every run keeps the invariant. -/
theorem authentic (host : Host) (start : Int) (run : List (Env × Event)) :
    Authentic host start run := by
  induction run using List.reverseRecOn with
  | nil => exact authentic_nil
  | append_singleton run x ih => exact authentic_snoc ih x

theorem stepped_at (host : Host) (start : Int) (run : List (Env × Event)) (x : Env × Event) :
    Stepped host x (relayAt host start run) (relayAt host start (run ++ [x]))
      (sentAt host start run x) := by
  rw [relayAt_snoc]
  exact step_stepped (authentic host start run).numbered

/-- The connection is known, and ready for as long as it lasts. -/
def Settled (r : RelayState) (h : Handle) : Prop :=
  h < r.nextHandle ∧ ∀ s ∈ r.sessions, s.handle = h → s.state = .ready

theorem settled_of_ready {run : List (Env × Event)} {h : Handle}
    (hready : ReadyAt (relayAt host start run) h) : Settled (relayAt host start run) h := by
  have hnumbered := (authentic host start run).numbered
  rcases hready with ⟨s, hs, rfl, hstate⟩
  refine ⟨hnumbered.bounded s hs, ?_⟩
  intro p hp hhandle
  rcases hnumbered.eq_of_handle hp hs hhandle with rfl
  exact hstate

theorem settled_snoc {run : List (Env × Event)} {h : Handle} (x : Env × Event)
    (hsettled : Settled (relayAt host start run) h) :
    Settled (relayAt host start (run ++ [x])) h := by
  have hstep := stepped_at host start run x
  refine ⟨Nat.lt_of_lt_of_le hsettled.1 hstep.next, ?_⟩
  intro s' hs' hhandle
  rcases hstep.sessions s' hs' with hfresh | ⟨s, hs, hmoved⟩
  · exact absurd (hfresh.handle.symm.trans hhandle) (Nat.ne_of_gt hsettled.1)
  · exact hmoved.of_ready (hsettled.2 s hs (hmoved.handle.symm.trans hhandle))

theorem settled_append {run : List (Env × Event)} {h : Handle} (later : List (Env × Event))
    (hsettled : Settled (relayAt host start run) h) :
    Settled (relayAt host start (run ++ later)) h := by
  induction later generalizing run with
  | nil => rwa [List.append_nil]
  | cons x later ih =>
      have hnext := ih (settled_snoc x hsettled)
      rwa [List.append_assoc, List.singleton_append] at hnext

/-- The connection `h` becomes ready at the event `x`. -/
def BecomesReady (host : Host) (start : Int) (run : List (Env × Event)) (x : Env × Event)
    (h : Handle) : Prop :=
  ¬ ReadyAt (relayAt host start run) h ∧ ReadyAt (relayAt host start (run ++ [x])) h

/-- What the handshake guarantees of every run. -/
structure Authenticated (host : Host) (start : Int) : Prop where
  /-- A connection becomes ready at most once. -/
  once : ∀ run x later y h, BecomesReady host start run x h →
    ¬ BecomesReady host start (run ++ x :: later) y h
  /-- It does so on an auth frame that proves, over the nonce of the challenge sent
  for its hello, the key whose hash is its room. -/
  proven : ∀ run x h, BecomesReady host start run x h →
    ∃ nonceS roomId, ChallengedIn host start run h nonceS ∧ Presented host x h nonceS roomId ∧
      ∀ s ∈ (relayAt host start (run ++ [x])).sessions, s.handle = h → s.conn.roomId = roomId
  /-- At most one signature is ever checked for it. -/
  checkOnce : ∀ run h, checkedFor host start h run ≤ 1
  /-- A frame is passed on only when a ready connection sends it, and only to another ready
  connection of its room. -/
  forwarded : ∀ run x a b raw, Effect.forward a b raw ∈ sentAt host start run x →
    x.2 = .message a (.text raw) ∧ Link (relayAt host start run).sessions a b
  /-- A frame is written only to a ready connection, and only if it was passed on to it. -/
  written : ∀ run x b raw, Effect.send b (.frame raw) ∈ sentAt host start run x →
    ReadyAt (relayAt host start run) b ∧ HandedIn host start (run ++ [x]) b raw
  /-- The retained clip of a room goes to a ready connection too. -/
  stored : ∀ run x b payload, Effect.send b (.stored payload) ∈ sentAt host start run x →
    ReadyAt (relayAt host start run) b

theorem handshake_safety (host : Host) (start : Int) : Authenticated host start := by
  refine
    { once := ?_
      proven := ?_
      checkOnce := fun run => (authentic host start run).checkOnce
      forwarded := fun run x => (stepped_at host start run x).forward
      written := ?_
      stored := fun run x => (stepped_at host start run x).stored }
  · rintro run x later y h ⟨-, hready⟩ ⟨hnot, hagain⟩
    have hsettled : Settled (relayAt host start (run ++ x :: later)) h := by
      have hlater := settled_append later (settled_of_ready hready)
      rwa [List.append_assoc, List.singleton_append] at hlater
    rcases hagain with ⟨s', hs', hhandle, hstate⟩
    rcases (stepped_at host start _ y).sessions s' hs' with hfresh | ⟨s, hs, hmoved⟩
    · exact nomatch hfresh.state.symm.trans hstate
    · have hsame := hmoved.handle.symm.trans hhandle
      exact hnot ⟨s, hs, hsame, hsettled.2 s hs hsame⟩
  · rintro run x h ⟨hnot, s', hs', hhandle, hstate⟩
    have hstep := stepped_at host start run x
    rcases hstep.sessions s' hs' with hfresh | ⟨s, hs, hmoved⟩
    · exact nomatch hfresh.state.symm.trans hstate
    · have hsame : s.handle = h := hmoved.handle.symm.trans hhandle
      cases hmoved.phase with
      | same _ hkept _ => exact absurd ⟨s, hs, hsame, hkept.symm.trans hstate⟩ hnot
      | challenged _ hstate' => exact nomatch hstate'.symm.trans hstate
      | refused _ hstate' => exact nomatch hstate'.symm.trans hstate
      | readied nonceS hbefore hissued _ hproof =>
          subst hsame
          refine ⟨nonceS, s'.conn.roomId,
            (authentic host start run).challenged s hs hbefore nonceS hissued, hproof, ?_⟩
          intro p hp hphandle
          rw [hstep.numbered.eq_of_handle hp hs' (hphandle.trans hhandle.symm)]
  · intro run x b raw hsend
    have hstep := stepped_at host start run x
    rcases hstep.frame b raw hsend with ⟨s, hs, hhandle, hpending⟩ | ⟨a, hforward⟩
    · rcases (authentic host start run).pending s hs raw hpending with ⟨hready, hhanded⟩
      subst hhandle
      exact ⟨⟨s, hs, rfl, hready⟩, hhanded.snoc x⟩
    · rcases (hstep.forward a b raw hforward).2 with ⟨_, _, p, hp, _, hhandle, _, hready, _, _⟩
      exact ⟨⟨p, hp, hhandle, hready⟩, HandedIn.last hforward⟩

end Runs

end Relay
end Asli
