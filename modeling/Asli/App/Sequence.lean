import Asli.Logic.Bytes
import Asli.Logic.Runs

/-!
# Sequence — the numbers a daemon seals its clips with, `asli-app/src/daemon.rs`

A start reserves a block of numbers in the state file, and a watch raises the reservation as copies
use it up.  The watch counts copies; a session takes a number for every clip it seals, and seals a
copy again when a connection ended before the relay confirmed it.

* `numbers_increase` — numbers never repeat while each one sealed lies inside the reservation.
-/

namespace Asli
namespace App

open Logic

/-! ## The reservation -/

def SEQ_RESERVATION : UInt64 := 1000

/-- `SequenceWatch`: counts the numbers this process may have used. -/
structure SequenceWatch where
  issued : UInt64
  ceiling : UInt64
  deriving DecidableEq

namespace SequenceWatch

def MARGIN : UInt64 := SEQ_RESERVATION / 10

def new (base : UInt64) : SequenceWatch :=
  { issued := base, ceiling := satAdd64 base SEQ_RESERVATION }

/-- Accounts for one more copy; the new ceiling to persist when one is due. -/
def issue (w : SequenceWatch) : Option UInt64 × SequenceWatch :=
  let issued := satAdd64 w.issued 1
  if satAdd64 issued MARGIN ≥ w.ceiling then
    let ceiling := satAdd64 w.ceiling SEQ_RESERVATION
    (some ceiling, { issued := issued, ceiling := ceiling })
  else (none, { w with issued := issued })

end SequenceWatch

/-- `raise_reservation`, given whether the state file could be written. -/
def raiseReservation (disk ceiling : UInt64) (saved : Bool) : UInt64 :=
  if disk < ceiling then if saved then ceiling else disk else disk

/-! ## The daemon -/

/-- A running daemon, as far as its numbers go. -/
structure SequenceDaemon where
  /-- `Session::seq`: the number of the last clip sealed. -/
  seq : UInt64
  watch : SequenceWatch
  /-- Copies handed to the connection and not taken yet. -/
  queue : Nat
  /-- A copy was sent and the relay has not confirmed it. -/
  unconfirmed : Bool
  /-- A copy the last connection lost. -/
  resend : Bool
  deriving DecidableEq

/-- The state file, the process when there is one, and every number sealed, the newest first. -/
structure Machine where
  disk : UInt64
  daemon : Option SequenceDaemon
  numbers : List UInt64
  deriving DecidableEq

/-- A device without a state file. -/
def Machine.fresh : Machine :=
  { disk := 0, daemon := none, numbers := [] }

inductive SequenceEvent where
  /-- The daemon starts; it does not when the reservation cannot be saved. -/
  | start (saved : Bool)
  /-- The watcher reports a copy, and the bridge hands it on. -/
  | copied (saved : Bool)
  /-- A queued copy makes no clip: paused, too large, an echo, or not the newest. -/
  | dropped
  /-- The newest copy is sealed; `sent` when its frames and the ping after them were written. -/
  | sealed (sent : Bool)
  | confirmed
  /-- The copy the last connection lost is sealed again. -/
  | resealed (sent : Bool)
  | disconnected (saved : Bool)
  /-- The process ends, at any point. -/
  | stopped

namespace Machine

/-- `reserve_sequence`, and the session and the watch that begin at the number it returns. -/
def start (d : Machine) (saved : Bool) : Machine :=
  if saved then
    { d with
      disk := satAdd64 d.disk SEQ_RESERVATION
      daemon := some { seq := d.disk, watch := SequenceWatch.new d.disk, queue := 0,
                       unconfirmed := false, resend := false } }
  else d

/-- The clipboard bridge: raised before the copy is handed on. -/
def copied (d : Machine) (p : SequenceDaemon) (saved : Bool) : Machine :=
  let issued := p.watch.issue
  { d with
    disk := match issued.1 with
      | none => d.disk
      | some ceiling => raiseReservation d.disk ceiling saved
    daemon := some { p with watch := issued.2, queue := p.queue + 1 } }

/-- `observe_local` and `observe_local_image` take the next number. -/
def sealNext (d : Machine) (p : SequenceDaemon) : Machine :=
  { d with
    daemon := some { p with seq := satAdd64 p.seq 1 }
    numbers := satAdd64 p.seq 1 :: d.numbers }

/-- One event.  What needs a process does nothing without one. -/
def step (d : Machine) (e : SequenceEvent) : Machine :=
  match d.daemon with
  | none =>
      match e with
      | .start saved => d.start saved
      | _ => d
  | some p =>
      match e with
      | .start _ => d
      | .copied saved => d.copied p saved
      | .dropped => { d with daemon := some { p with queue := p.queue - 1 } }
      | .sealed sent =>
          if p.queue = 0 then d
          else d.sealNext { p with queue := p.queue - 1, unconfirmed := p.unconfirmed || sent }
      | .confirmed => { d with daemon := some { p with unconfirmed := false } }
      | .resealed sent =>
          if p.resend then d.sealNext { p with resend := false, unconfirmed := sent } else d
      | .disconnected saved =>
          { d with
            disk := raiseReservation d.disk (satAdd64 p.seq SEQ_RESERVATION) saved
            daemon := some { p with unconfirmed := false, resend := p.resend || p.unconfirmed } }
      | .stopped => { d with daemon := none }

/-- The device after a run. -/
def after (es : List SequenceEvent) : Machine :=
  es.foldl step fresh

/-- Whether the event makes the process seal a clip. -/
def seals (d : Machine) (e : SequenceEvent) : Bool :=
  match d.daemon, e with
  | some p, .sealed _ => p.queue != 0
  | some p, .resealed _ => p.resend
  | _, _ => false

/-- The number sealed next lies inside the reservation on disk. -/
def Reserved (d : Machine) (e : SequenceEvent) : Prop :=
  d.seals e = true → ∀ p, d.daemon = some p → p.seq < d.disk

end Machine

/-! ## Numbers never repeat -/

theorem raiseReservation_ge (disk ceiling : UInt64) (saved : Bool) :
    disk ≤ raiseReservation disk ceiling saved := by
  unfold raiseReservation
  split
  next hlt =>
    split
    · exact UInt64.le_of_lt hlt
    · exact UInt64.le_refl disk
  next => exact UInt64.le_refl disk

theorem le_satAdd64 (a b : UInt64) : a ≤ satAdd64 a b := by
  rw [UInt64.le_iff_toNat_le, satAdd64_toNat]
  have := a.toNat_lt
  omega

/-- Below a bound there is a next number, and it does not pass the bound. -/
theorem satAdd64_one {a b : UInt64} (h : a < b) : a < satAdd64 a 1 ∧ satAdd64 a 1 ≤ b := by
  rw [UInt64.lt_iff_toNat_lt] at h
  have hb := b.toNat_lt
  have hone : (1 : UInt64).toNat = 1 := rfl
  constructor
  · rw [UInt64.lt_iff_toNat_lt, satAdd64_toNat, hone]
    omega
  · rw [UInt64.le_iff_toNat_le, satAdd64_toNat, hone]
    omega

namespace Machine

/-- Everything sealed so far is reserved on disk, and the process stands at or above it. -/
structure Ordered (d : Machine) : Prop where
  increasing : d.numbers.Pairwise fun later earlier => earlier < later
  reserved : ∀ n ∈ d.numbers, n ≤ d.disk
  below : ∀ p, d.daemon = some p → ∀ n ∈ d.numbers, n ≤ p.seq

theorem fresh_ordered : Ordered fresh where
  increasing := List.Pairwise.nil
  reserved := fun _ hn => absurd hn List.not_mem_nil
  below := fun _ hp => nomatch hp

namespace Ordered

variable {d : Machine}

/-- A change that seals nothing: the reservation may rise, and the process keep its place. -/
theorem quiet (h : Ordered d) {disk : UInt64} (hdisk : d.disk ≤ disk)
    {daemon : Option SequenceDaemon}
    (hdaemon : ∀ p, daemon = some p → (∃ q, d.daemon = some q ∧ p.seq = q.seq) ∨ p.seq = d.disk) :
    Ordered { d with disk := disk, daemon := daemon } where
  increasing := h.increasing
  reserved := fun n hn => UInt64.le_trans (h.reserved n hn) hdisk
  below := by
    intro p hp n hn
    rcases hdaemon p hp with ⟨q, hq, hseq⟩ | hseq
    · rw [hseq]
      exact h.below q hq n hn
    · rw [hseq]
      exact h.reserved n hn

/-- A clip sealed with a reserved number. -/
theorem sealNext (h : Ordered d) {p q : SequenceDaemon} (hp : d.daemon = some p)
    (hq : q.seq = p.seq)
    (hroom : p.seq < d.disk) : Ordered (d.sealNext q) := by
  obtain ⟨hnext, hle⟩ := satAdd64_one hroom
  unfold Machine.sealNext
  rw [hq]
  exact {
    increasing := by
      refine List.Pairwise.cons ?_ h.increasing
      intro n hn
      exact UInt64.lt_of_le_of_lt (h.below p hp n hn) hnext
    reserved := by
      intro n hn
      rcases List.mem_cons.mp hn with rfl | hn
      · exact hle
      · exact h.reserved n hn
    below := by
      rintro r hr n hn
      cases hr
      rcases List.mem_cons.mp hn with rfl | hn
      · exact UInt64.le_refl _
      · exact UInt64.le_trans (h.below p hp n hn) (UInt64.le_of_lt hnext) }

theorem step (h : Ordered d) (e : SequenceEvent) (hreserved : Reserved d e) :
    Ordered (d.step e) := by
  have hrefl := UInt64.le_refl d.disk
  unfold Machine.step
  split
  next hnone =>
    cases e with
    | start saved =>
        simp only [Machine.start]
        split
        · refine h.quiet (le_satAdd64 _ _) ?_
          rintro p hp
          cases hp
          -- the session begins where the reservation stood
          exact Or.inr rfl
        · exact h
    | _ => exact h
  next p hp =>
    cases e with
    | start saved => exact h
    | copied saved =>
        refine h.quiet ?_ ?_
        · split
          · exact hrefl
          · exact raiseReservation_ge _ _ _
        · rintro q hq
          cases hq
          exact Or.inl ⟨p, hp, rfl⟩
    | dropped =>
        refine h.quiet hrefl ?_
        rintro q hq
        cases hq
        exact Or.inl ⟨p, hp, rfl⟩
    | «sealed» sent =>
        dsimp only
        split
        · exact h
        next hqueue =>
          have hseals : d.seals (.sealed sent) = true := by
            simp only [Machine.seals, hp, bne_iff_ne, ne_eq]
            exact hqueue
          exact h.sealNext hp rfl (hreserved hseals p hp)
    | confirmed =>
        refine h.quiet hrefl ?_
        rintro q hq
        cases hq
        exact Or.inl ⟨p, hp, rfl⟩
    | resealed sent =>
        dsimp only
        split
        next hresend =>
          have hseals : d.seals (.resealed sent) = true := by
            simp only [Machine.seals, hp]
            exact hresend
          exact h.sealNext hp rfl (hreserved hseals p hp)
        · exact h
    | disconnected saved =>
        refine h.quiet (raiseReservation_ge _ _ _) ?_
        rintro q hq
        cases hq
        exact Or.inl ⟨p, hp, rfl⟩
    | stopped => exact h.quiet hrefl fun q hq => nomatch hq

end Ordered

theorem ordered_after {es : List SequenceEvent} (h : Runs.Along step Reserved fresh es) :
    Ordered (after es) :=
  Runs.invariant step Ordered (fun _ e hd hr => hd.step e hr) es fresh_ordered h

/-- While every number sealed lies inside the reservation, each is above all before it, also across
crashes. -/
theorem numbers_increase (es : List SequenceEvent) (h : Runs.Along step Reserved fresh es) :
    (after es).numbers.Pairwise fun later earlier => earlier < later :=
  (ordered_after h).increasing

/-! ## A run that uses a number twice -/

/-- The numbers of a device between two copies, as naturals. -/
structure StandsAt (d : Machine) (disk seq issued ceiling : Nat) (p : SequenceDaemon) : Prop where
  daemon : d.daemon = some p
  queue : p.queue = 0
  unconfirmed : p.unconfirmed = true
  disk : d.disk.toNat = disk
  seq : p.seq.toNat = seq
  issued : p.watch.issued.toNat = issued
  ceiling : p.watch.ceiling.toNat = ceiling

/-- One copy, sealed as soon as it is handed on. -/
def oneCopy : List SequenceEvent :=
  [.copied true, .sealed true]

/-- A connection ends before the copy it carried was confirmed. -/
def oneLoss : List SequenceEvent :=
  [.disconnected true, .resealed true]

/-- The process is killed and starts again. -/
def oneRestart : List SequenceEvent :=
  [.stopped, .start true]

def times (n : Nat) (es : List SequenceEvent) : List SequenceEvent :=
  (List.replicate n es).flatten

def run (d : Machine) (es : List SequenceEvent) : Machine :=
  es.foldl step d

theorem run_times_succ (d : Machine) (n : Nat) (es : List SequenceEvent) :
    run d (times (n + 1) es) = run (run d es) (times n es) := by
  simp only [run, times, List.replicate_succ, List.flatten_cons, List.foldl_append]

theorem run_append (d : Machine) (es more : List SequenceEvent) :
    run d (es ++ more) = run (run d es) more :=
  List.foldl_append

section Standing

variable {d : Machine} {p : SequenceDaemon} {disk seq issued ceiling : Nat}

theorem toNat_satAdd64 {a b : UInt64} {m n : Nat} (ha : a.toNat = m) (hb : b.toNat = n)
    (hsmall : m + n < 2 ^ 64) : (satAdd64 a b).toNat = m + n := by
  rw [satAdd64_toNat, ha, hb]
  omega

/-- A copy moves the session and the watch on, and the watch raises the reservation
when it is due. -/
theorem standsAt_copy (h : StandsAt d disk seq issued ceiling p) (hseq : seq + 1 < 2 ^ 64)
    (hissued : issued + 101 < 2 ^ 64) (hceiling : ceiling + 1000 < 2 ^ 64) :
    ∃ q, (if issued + 101 < ceiling then
        StandsAt (run d oneCopy) disk (seq + 1) (issued + 1) ceiling q
      else StandsAt (run d oneCopy) (max disk (ceiling + 1000)) (seq + 1) (issued + 1)
        (ceiling + 1000) q) ∧
      (run d oneCopy).numbers.head? = some (UInt64.ofNat (seq + 1)) := by
  have hone : (1 : UInt64).toNat = 1 := rfl
  have hthousand : SEQ_RESERVATION.toNat = 1000 := rfl
  have hmargin : SequenceWatch.MARGIN.toNat = 100 := by decide
  have hnext : (satAdd64 p.seq 1).toNat = seq + 1 := toNat_satAdd64 h.seq hone hseq
  have hcount : (satAdd64 p.watch.issued 1).toNat = issued + 1 :=
    toNat_satAdd64 h.issued hone (by omega)
  have hedge : (satAdd64 (satAdd64 p.watch.issued 1) SequenceWatch.MARGIN).toNat =
      issued + 1 + 100 :=
    toNat_satAdd64 hcount hmargin (by omega)
  have hraised : (satAdd64 p.watch.ceiling SEQ_RESERVATION).toNat = ceiling + 1000 :=
    toNat_satAdd64 h.ceiling hthousand hceiling
  have hhead : satAdd64 p.seq 1 = UInt64.ofNat (seq + 1) := by
    rw [← UInt64.toNat_inj, hnext, UInt64.toNat_ofNat', Nat.mod_eq_of_lt hseq]
  have hrun : run d oneCopy = (d.copied p true).step (.sealed true) := by
    simp only [run, oneCopy, List.foldl_cons, List.foldl_nil, step, h.daemon]
  have hsealed : (d.copied p true).step (.sealed true) = (d.copied p true).sealNext
      { p with watch := p.watch.issue.2, queue := 0, unconfirmed := true } := by
    simp only [step, copied, h.queue, Nat.zero_add, Nat.one_ne_zero, if_false, Nat.sub_self,
      Bool.or_true]
  rw [hrun, hsealed]
  refine ⟨{ p with watch := p.watch.issue.2, queue := 0, unconfirmed := true,
                   seq := satAdd64 p.seq 1 }, ?_, ?_⟩
  · have hdue : satAdd64 (satAdd64 p.watch.issued 1) SequenceWatch.MARGIN ≥ p.watch.ceiling ↔
        ¬ issued + 101 < ceiling := by
      rw [ge_iff_le, UInt64.le_iff_toNat_le, hedge, h.ceiling]
      omega
    split
    next hroom =>
      have hissue : p.watch.issue =
          (none, { p.watch with issued := satAdd64 p.watch.issued 1 }) := by
        simp only [SequenceWatch.issue, if_neg fun hge => hdue.mp hge hroom]
      refine ⟨rfl, rfl, rfl, ?_, hnext, ?_, ?_⟩
      · simpa only [sealNext, copied, hissue] using h.disk
      · simpa only [hissue] using hcount
      · simpa only [hissue] using h.ceiling
    next hfull =>
      have hissue : p.watch.issue = (some (satAdd64 p.watch.ceiling SEQ_RESERVATION),
          { issued := satAdd64 p.watch.issued 1
            ceiling := satAdd64 p.watch.ceiling SEQ_RESERVATION }) := by
        simp only [SequenceWatch.issue, if_pos (hdue.mpr hfull)]
      refine ⟨rfl, rfl, rfl, ?_, hnext, ?_, ?_⟩
      · have hdisk : (raiseReservation d.disk (satAdd64 p.watch.ceiling SEQ_RESERVATION)
          true).toNat =
            max disk (ceiling + 1000) := by
          simp only [raiseReservation, UInt64.lt_iff_toNat_lt, hraised, h.disk, if_true]
          split
          · rw [hraised]
            omega
          · rw [h.disk]
            omega
        simpa only [sealNext, copied, hissue] using hdisk
      · simpa only [hissue] using hcount
      · simpa only [hissue] using hraised
  · exact congrArg some hhead

/-- Copies while the block lasts. -/
theorem standsAt_copies (n : Nat) (h : StandsAt d disk seq issued ceiling p)
    (hseq : seq + n < 2 ^ 64) (hroom : issued + n + 100 < ceiling)
    (hceiling : ceiling + 1000 < 2 ^ 64) :
    ∃ q, StandsAt (run d (times n oneCopy)) disk (seq + n) (issued + n) ceiling q := by
  induction n generalizing d p seq issued with
  | zero => exact ⟨p, h⟩
  | succ n ih =>
      obtain ⟨q, hq, -⟩ := standsAt_copy h (by omega) (by omega) hceiling
      rw [if_pos (by omega)] at hq
      rw [run_times_succ]
      obtain ⟨r, hr⟩ := ih hq (by omega) (by omega)
      have hseqs : seq + 1 + n = seq + (n + 1) := by omega
      have hcounts : issued + 1 + n = issued + (n + 1) := by omega
      rw [hseqs, hcounts] at hr
      exact ⟨r, hr⟩

/-- A lost connection raises the reservation past the session, and the copy takes another number. -/
theorem standsAt_loss (h : StandsAt d disk seq issued ceiling p) (hseq : seq + 1000 < 2 ^ 64) :
    ∃ q, StandsAt (run d oneLoss) (max disk (seq + 1000)) (seq + 1) issued ceiling q := by
  have hone : (1 : UInt64).toNat = 1 := rfl
  have hthousand : SEQ_RESERVATION.toNat = 1000 := rfl
  have hnext : (satAdd64 p.seq 1).toNat = seq + 1 := toNat_satAdd64 h.seq hone (by omega)
  have hreach : (satAdd64 p.seq SEQ_RESERVATION).toNat = seq + 1000 :=
    toNat_satAdd64 h.seq hthousand hseq
  refine ⟨{ p with seq := satAdd64 p.seq 1, unconfirmed := true, resend := false }, ?_⟩
  have hrun : run d oneLoss =
      { disk := raiseReservation d.disk (satAdd64 p.seq SEQ_RESERVATION) true
        daemon := some { p with seq := satAdd64 p.seq 1, unconfirmed := true, resend := false }
        numbers := satAdd64 p.seq 1 :: d.numbers } := by
    simp only [run, oneLoss, List.foldl_cons, List.foldl_nil, step, h.daemon, h.unconfirmed,
      Bool.or_true, if_true, sealNext]
  rw [hrun]
  refine ⟨rfl, h.queue, rfl, ?_, hnext, h.issued, h.ceiling⟩
  simp only [raiseReservation, UInt64.lt_iff_toNat_lt, hreach, h.disk, if_true]
  split
  · rw [hreach]
    omega
  · rw [h.disk]
    omega

theorem standsAt_losses (n : Nat) (h : StandsAt d disk seq issued ceiling p)
    (hseq : seq + n + 1000 < 2 ^ 64) (hdisk : disk = seq + 999) :
    ∃ q, StandsAt (run d (times n oneLoss)) (disk + n) (seq + n) issued ceiling q := by
  induction n generalizing d p disk seq with
  | zero => exact ⟨p, h⟩
  | succ n ih =>
      obtain ⟨q, hq⟩ := standsAt_loss h (by omega)
      have hmax : max disk (seq + 1000) = disk + 1 := by omega
      rw [hmax] at hq
      rw [run_times_succ]
      obtain ⟨r, hr⟩ := ih hq (by omega) (by omega)
      have hdisks : disk + 1 + n = disk + (n + 1) := by omega
      have hseqs : seq + 1 + n = seq + (n + 1) := by omega
      rw [hdisks, hseqs] at hr
      exact ⟨r, hr⟩

end Standing

/-- A process that went one past its reservation is killed: the next one starts at that number. -/
theorem restart_repeats {d : Machine} {p : SequenceDaemon} (h : StandsAt d 2000 2001 1899 2000 p)
    (hlast : d.numbers.head? = some 2001) :
    ∃ earlier, (run d (oneRestart ++ oneCopy)).numbers = 2001 :: 2001 :: earlier := by
  have hdisk : d.disk = 2000 := UInt64.toNat_inj.mp h.disk
  obtain ⟨earlier, hnumbers⟩ : ∃ earlier, d.numbers = 2001 :: earlier := by
    cases hcase : d.numbers with
    | nil =>
        rw [hcase] at hlast
        exact nomatch hlast
    | cons n earlier =>
        rw [hcase] at hlast
        exact ⟨earlier, congrArg (· :: earlier) (Option.some.inj hlast)⟩
  have hreserved : satAdd64 2000 SEQ_RESERVATION = 3000 := by decide
  have hnumber : satAdd64 2000 1 = 2001 := by decide
  have hrestart : run d oneRestart =
      { disk := 3000
        daemon := some { seq := 2000, watch := { issued := 2000, ceiling := 3000 }, queue := 0,
                         unconfirmed := false, resend := false }
        numbers := 2001 :: earlier } := by
    simp only [run, oneRestart, List.foldl_cons, List.foldl_nil, step, h.daemon, start, if_true,
      hdisk, hnumbers, SequenceWatch.new, hreserved]
  have hcopy : ∀ (d : Machine) (p : SequenceDaemon), d.daemon = some p → p.queue = 0 →
      (run d oneCopy).numbers = satAdd64 p.seq 1 :: d.numbers := by
    intro d p hp hqueue
    simp only [run, oneCopy, List.foldl_cons, List.foldl_nil, step, hp, copied, hqueue,
        Nat.zero_add,
      Nat.one_ne_zero, if_false, sealNext]
  refine ⟨earlier, ?_⟩
  rw [run_append, hrestart, hcopy _ _ rfl rfl, hnumber]

/-- A copy goes out over 103 connections and 1898 copies over the last of them; then the process is
killed, starts again and sends one more. -/
def worn : List SequenceEvent :=
  (.start true :: oneCopy) ++ (times 102 oneLoss ++ (times 898 oneCopy ++ (oneCopy ++
    (times 998 oneCopy ++ (oneCopy ++ (oneRestart ++ oneCopy))))))

/-- The last number of one process is the first of the next. -/
theorem worn_numbers : ∃ earlier, (run fresh worn).numbers = 2001 :: 2001 :: earlier := by
  have hfirst : StandsAt (run fresh (.start true :: oneCopy)) 1000 1 1 1000
      { seq := 1, watch := { issued := 1, ceiling := 1000 }, queue := 0, unconfirmed := true,
        resend := false } := by
    constructor <;> decide +kernel
  obtain ⟨p₁, h₁⟩ := standsAt_losses 102 hfirst (by omega) rfl
  obtain ⟨p₂, h₂⟩ := standsAt_copies 898 h₁ (by omega) (by omega) (by omega)
  -- the watch has counted 899 copies and raises its ceiling at the next
  obtain ⟨p₃, h₃, -⟩ := standsAt_copy h₂ (by omega) (by omega) (by omega)
  rw [if_neg (show ¬ 1 + 898 + 101 < 1000 by omega)] at h₃
  obtain ⟨p₄, h₄⟩ := standsAt_copies 998 h₃ (by omega) (by omega) (by omega)
  -- the session is 102 numbers ahead of the watch, and passes the reservation
  obtain ⟨p₅, h₅, hlast⟩ := standsAt_copy h₄ (by omega) (by omega) (by omega)
  rw [if_pos (show 1 + 898 + 1 + 998 + 101 < 1000 + 1000 by omega)] at h₅
  rw [worn, run_append, run_append, run_append, run_append, run_append, run_append]
  exact restart_repeats h₅ hlast

theorem numbers_repeat :
    ¬ ∀ es, (after es).numbers.Pairwise fun later earlier => earlier < later := by
  intro hall
  have hworn := hall worn
  have hrun : after worn = run fresh worn := rfl
  obtain ⟨earlier, hnumbers⟩ := worn_numbers
  rw [hrun, hnumbers] at hworn
  exact absurd (List.rel_of_pairwise_cons hworn List.mem_cons_self) (UInt64.lt_irrefl 2001)

/-! ## Restarts alone -/

/-- A daemon that has just started. -/
def begun (base : UInt64) : SequenceDaemon :=
  { seq := base, watch := SequenceWatch.new base, queue := 0, unconfirmed := false,
      resend := false }

theorem run_restart (d : Machine) : run d oneRestart =
    { d with disk := satAdd64 d.disk SEQ_RESERVATION, daemon := some (begun d.disk) } := by
  cases hcase : d.daemon with
  | none => simp only [run, oneRestart, List.foldl_cons, List.foldl_nil, step, hcase,
      start, if_true,
      begun]
  | some p => simp only [run, oneRestart, List.foldl_cons, List.foldl_nil, step, hcase, start,
      if_true, begun]

/-- Every start passes over one block. -/
theorem run_restarts (n : Nat) (d : Machine) (hsmall : d.disk.toNat + 1000 * (n + 1) < 2 ^ 64) :
    ∃ base disk, run d (times (n + 1) oneRestart) =
        { d with disk := disk, daemon := some (begun base) } ∧
      base.toNat = d.disk.toNat + 1000 * n ∧ disk.toNat = d.disk.toNat + 1000 * (n + 1) := by
  have hone : ∀ d : Machine, d.disk.toNat + 1000 < 2 ^ 64 →
      (run d oneRestart).disk.toNat = d.disk.toNat + 1000 := by
    intro d hd
    have hthousand : SEQ_RESERVATION.toNat = 1000 := rfl
    have hdisk : (run d oneRestart).disk = satAdd64 d.disk SEQ_RESERVATION := by rw [run_restart]
    rw [hdisk, satAdd64_toNat, hthousand]
    omega
  induction n generalizing d with
  | zero =>
      refine ⟨d.disk, (run d oneRestart).disk, ?_, (Nat.add_zero _).symm, hone d hsmall⟩
      rw [run_times_succ, run_restart]
      rfl
  | succ n ih =>
      have hlater : ∀ a b, b + 1000 * (n + 1 + 1) < 2 ^ 64 → b + 1000 < 2 ^ 64 ∧
          (a = b + 1000 → a + 1000 * (n + 1) < 2 ^ 64 ∧ a + 1000 * n = b + 1000 * (n + 1) ∧
            a + 1000 * (n + 1) = b + 1000 * (n + 1 + 1)) := by
        intro a b hb
        omega
      obtain ⟨hroom, hnext⟩ := hlater (run d oneRestart).disk.toNat _ hsmall
      obtain ⟨hroom, hbases, hdisks⟩ := hnext (hone d hroom)
      obtain ⟨base, disk, hrun, hbase, hdisk⟩ := ih (run d oneRestart) hroom
      refine ⟨base, disk, ?_, hbase.trans hbases, hdisk.trans hdisks⟩
      rw [run_times_succ, hrun, run_restart]

/-- What seals nothing meets the condition. -/
theorem along_restarts (n : Nat) (d : Machine) :
    Runs.Along step Reserved d (times n oneRestart) := by
  induction n generalizing d with
  | zero => trivial
  | succ n ih =>
      have hone : ∀ (d : Machine) (e : SequenceEvent), e = .stopped ∨ e = .start true →
          Reserved d e := by
        rintro d e (rfl | rfl) hseals
        · simp [seals] at hseals
        · simp [seals] at hseals
      have hsplit : times (n + 1) oneRestart = oneRestart ++ times n oneRestart := by
        simp only [times, List.replicate_succ, List.flatten_cons]
      rw [hsplit]
      exact Runs.along_append.mpr
        ⟨⟨hone _ _ (Or.inl rfl), hone _ _ (Or.inr rfl), trivial⟩, ih _⟩

instance (d : Machine) (e : SequenceEvent) : Decidable (Reserved d e) :=
  decidable_of_iff (d.seals e = true → ∀ p ∈ d.daemon, p.seq < d.disk) Iff.rfl

/-- A copy, a restart and another copy. -/
theorem numbers_increase_restart :
    (after (.start true :: oneCopy ++ oneRestart ++ oneCopy)).numbers.Pairwise
      fun later earlier => earlier < later := by
  refine numbers_increase _ ?_
  simp only [oneCopy, oneRestart, List.cons_append, List.nil_append, Runs.Along]
  decide +kernel

end Machine

end App
end Asli
