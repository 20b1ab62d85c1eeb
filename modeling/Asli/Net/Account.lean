import Asli.Core.ReplaySafety
import Asli.Logic.Numbered
import Asli.Logic.Runs
import Asli.Net.TextClip
import Mathlib.Data.Fintype.Card

/-!
# Account — the texts between the devices of one account

The sessions of one account's devices, and between them a relay that delivers whatever it likes, as
often as it likes, in any order.  It has no key: what opens was sealed by one of them.

* `Account.told_in_order` — what a device is told of another is a subsequence, in order, of what the
  other sealed: nothing made up, nothing twice, nothing out of turn.
-/

namespace Asli
namespace Net

open Logic
open Crypto (Primitives Identity Assembly Inner Nonce)
open Core (ReplayGuard MsgId DeviceId Incoming)

/-- The devices, the texts they sealed and the texts they were told, oldest first. -/
structure Account (ι : Type) where
  session : ι → Session
  copied : List Copied
  told : List (ι × Told)

namespace Account

/-- What a device does: it begins a connection, turns a local event into frames, reads a frame, or
starts again as another session. -/
inductive Act where
  | hello (clientId : String)
  | event (observed : LocalEvent) (draws : EventDraws)
  | deliver (d : Delivery)
  | restart (t : Session)

section Step

variable {ι : Type} [DecidableEq ι] (P : Primitives) (T : JsonText)

/-- The session left, the texts sealed and the texts told. -/
def Act.apply (s : Session) : Act → Session × List Copied × List Told
  | .hello clientId => ((s.helloFrame clientId).1, [], [])
  | .event observed draws =>
      let r := framesFor P s observed draws
      match r.2.2 with
      | .ok frames => (r.1, sealedBy r.1 observed draws.nowMs frames, [])
      | .error _ => (r.1, [], [])
  | .deliver d =>
      let r := s.deliver P T d
      (r.1, [], toldBy r.2)
  | .restart t => (t, [], [])

def step (w : Account ι) (e : ι × Act) : Account ι :=
  let r := e.2.apply P T (w.session e.1)
  { session := Function.update w.session e.1 r.1
    copied := w.copied ++ r.2.1
    told := w.told ++ r.2.2.map (Prod.mk e.1) }

theorem step_deliver (w : Account ι) (i : ι) (d : Delivery) :
    (w.step P T (i, .deliver d)).session i = ((w.session i).deliver P T d).1 :=
  Function.update_self _ _ _

theorem step_other (w : Account ι) {i j : ι} (h : j ≠ i) (act : Act) :
    (w.step P T (i, act)).session j = w.session j :=
  Function.update_of_ne h _ _

def run (w : Account ι) (es : List (ι × Act)) : Account ι :=
  es.foldl (step P T) w

/-- What a daemon starts from: its device, what its guard had learned, and a reserved number no
lower than those it used. -/
structure Resumes (s t : Session) : Prop where
  deviceId : t.deviceId = s.deviceId
  replay : t.replay = (ReplayGuard.new s.deviceId DEFAULT_RETENTION_MS).restore s.replay.memory
  seq : s.seq ≤ t.seq

/-- What opens was sealed by a device of the account: a clip is one of the texts, and an image names
one of the devices. -/
structure Unforged (w : Account ι) (i : ι) (d : Delivery) : Prop where
  clip : ∀ clip msgId inner, Session.frameOf T d.frame = some (.clip clip) →
    Session.OpensClip P (w.session i) clip msgId inner →
      ∃ x ∈ w.copied, x.msgId = msgId.1 ∧ x.inner = inner
  image : ∀ chunk msgId nonce a piece b inner, Session.chunkOf T d.frame = some chunk →
    Session.Opened P (w.session i) chunk msgId nonce a piece b → b.finish = .ok inner →
      ∃ j, inner.deviceId = (w.session j).deviceId

def Honest (w : Account ι) (e : ι × Act) : Prop :=
  match e.2 with
  | .deliver d => w.Unforged P T e.1 d
  | .restart t => Resumes (w.session e.1) t
  | .hello _ | .event _ _ => True

/-- Devices with an id each, and nothing has happened yet. -/
structure Starts (w : Account ι) : Prop where
  distinct : Function.Injective fun i => (w.session i).deviceId
  guards : ∀ i, ∃ window, (w.session i).replay = .new (w.session i).deviceId window
  copied : w.copied = []
  told : w.told = []

/-- The texts one device sealed, and what a device was told of another, in order. -/
def copiedBy (w : Account ι) (device : DeviceId) : List (String × UInt64) :=
  (w.copied.filter fun x => decide (x.device = device)).map fun x => (x.text, x.tsMs)

def toldTo (w : Account ι) (i : ι) (device : DeviceId) : List (String × UInt64) :=
  (w.told.filter fun h => decide (h.1 = i ∧ h.2.device = device)).map fun h =>
    (h.2.text, h.2.tsMs)

end Step

/-! ## What a session keeps -/

section Keeps

variable {P : Primitives} {T : JsonText}

/-- What turning an event into frames leaves of the device, and of its counter. -/
structure KeepsOn (s t : Session) : Prop where
  deviceId : t.deviceId = s.deviceId
  replay : t.replay = s.replay
  seq : s.seq ≤ t.seq

theorem KeepsOn.same (s : Session) : KeepsOn s s :=
  ⟨rfl, rfl, UInt64.le_refl _⟩

theorem KeepsOn.trans {s t u : Session} (h : KeepsOn s t) (g : KeepsOn t u) : KeepsOn s u :=
  ⟨g.deviceId.trans h.deviceId, g.replay.trans h.replay, UInt64.le_trans h.seq g.seq⟩

theorem KeepsOn.of_quiet {s t : Session} (h : Session.Quiet s t) : KeepsOn s t :=
  ⟨h.deviceId, h.replay, h.seq ▸ UInt64.le_refl _⟩

theorem KeepsOn.of_sealing {s t : Session} (h : Session.Sealing s t) : KeepsOn s t := by
  refine ⟨h.deviceId, h.replay, ?_⟩
  rcases h.seq with hsame | hnext
  · rw [hsame]
    exact UInt64.le_refl _
  · rw [hnext, UInt64.le_iff_toNat_le, satAdd64_toNat]
    have := s.seq.toNat_lt
    omega

theorem copyOutcome_session (r : Session × Except Error (List Message)) :
    (copyOutcome r).1 = r.1 := by
  unfold copyOutcome
  split
  · rfl
  · rfl
  · split
    · rfl
    · rfl

theorem messageOutcome_session (token : Option UInt64) (r : Session × Except Error Message) :
    (messageOutcome token r).1 = r.1 := by
  unfold messageOutcome
  split
  · rfl
  · split
    · rfl
    · rfl

theorem framesFor_keepsOn (s : Session) (event : LocalEvent) (draws : EventDraws) :
    KeepsOn s (framesFor P s event draws).1 := by
  cases event with
  | text text =>
      rw [framesFor, copyOutcome_session]
      exact .of_sealing (Session.observeLocal_sealing s text draws.nowMs draws.frame)
  | image png =>
      rw [framesFor, copyOutcome_session]
      exact .of_sealing
        (Session.observeLocalImage_sealing s png draws.nowMs draws.imageId draws.pieces)
  | fetchRetained =>
      unfold framesFor
      simp only
      split
      · exact .same s
      · split
        · exact .same s
        · exact .same s
  | deviceInfo info =>
      have hinfo : KeepsOn s (s.setDeviceInfo info) := ⟨rfl, rfl, UInt64.le_refl _⟩
      have hannounce := hinfo.trans
        (.of_quiet (Session.announceFrame_quiet (P := P) (s.setDeviceInfo info) draws.nowMs
          draws.frame))
      unfold framesFor
      simp only
      split
      · exact hannounce
      have hcard := hannounce.trans
        (.of_quiet (Session.cardFrame_quiet (P := P) _ draws.nowMs draws.card))
      split
      · exact hcard
      · exact hcard
  | message kind body to_ token =>
      rw [framesFor, messageOutcome_session]
      exact .of_quiet (Session.msgFrame_quiet s kind body to_ draws.frame)
  | rekey keep secret token =>
      rw [framesFor, messageOutcome_session]
      exact .of_quiet (Session.rekeyFrame_quiet s keep secret draws.nowMs draws.boxes draws.frame)

theorem record_own (g : ReplayGuard) (c : Incoming) :
    (g.record c).ownDeviceId = g.ownDeviceId := by
  unfold ReplayGuard.record
  split
  · rfl
  · rfl

end Keeps

/-! ## What holds of the devices -/

section Kept

variable {ι : Type} [DecidableEq ι] {P : Primitives} {T : JsonText} {ids : ι → DeviceId}
  {w : Account ι}

/-- What one device was told are texts that were sealed, and its guard took each of them. -/
structure TakenBy (ids : ι → DeviceId) (copied : List Copied) (told : List (ι × Told)) (i : ι)
    (g : ReplayGuard) (acc : List Incoming) (xs : List Copied) : Prop where
  tracks : g.Tracks acc
  others : ∀ c ∈ acc, ∃ j, j ≠ i ∧ c.deviceId = ids j
  sealed : ∀ x ∈ xs, x ∈ copied
  taken : (xs.map fun x => (x.device, x.seq)).Sublist (acc.map fun c => (c.deviceId, c.seq))
  told : (told.filter fun h => decide (h.1 = i)).map (fun h => (h.2.device, h.2.text, h.2.tsMs)) =
    xs.map fun x => (x.device, x.text, x.tsMs)

structure Kept (ids : ι → DeviceId) (w : Account ι) : Prop where
  device : ∀ i, (w.session i).deviceId = ids i
  own : ∀ i, (w.session i).replay.ownDeviceId = ids i
  guard : ∀ i, (w.session i).replay.WellFormed
  numbered : ∀ x ∈ w.copied, ∃ i, x.device = ids i ∧ x.seq ≤ (w.session i).seq
  ordered : w.copied.Pairwise fun x y => x.device = y.device → x.seq ≤ y.seq
  taken : ∀ i, ∃ acc xs, TakenBy ids w.copied w.told i (w.session i).replay acc xs

theorem TakenBy.grow {copied more : List Copied} {told : List (ι × Told)} {i : ι}
    {g : ReplayGuard} {acc : List Incoming} {xs : List Copied}
    (h : TakenBy ids copied told i g acc xs) : TakenBy ids (copied ++ more) told i g acc xs :=
  { h with sealed := fun x hx => List.mem_append_left more (h.sealed x hx) }

/-- What another device is told is not told to this one. -/
theorem TakenBy.other {copied : List Copied} {told : List (ι × Told)} {i j : ι} (hne : j ≠ i)
    {g : ReplayGuard} {acc : List Incoming} {xs : List Copied}
    (h : TakenBy ids copied told i g acc xs) (more : List Told) :
    TakenBy ids copied (told ++ more.map (Prod.mk j)) i g acc xs := by
  have hnone : (more.map (Prod.mk j)).filter (fun h => decide (h.1 = i)) = [] := by
    rw [List.filter_eq_nil_iff]
    intro h hm
    rcases List.mem_map.mp hm with ⟨x, -, rfl⟩
    exact fun hsame => hne (of_decide_eq_true hsame)
  refine { h with told := ?_ }
  rw [List.filter_append, hnone, List.append_nil]
  exact h.told

/-- The guard takes one more, of another device of the account. -/
theorem TakenBy.record [Fintype ι] (hfew : Fintype.card ι ≤ Core.DEFAULT_DEVICE_CAPACITY)
    {copied : List Copied} {told : List (ι × Told)} {i : ι} {g : ReplayGuard} {acc : List Incoming}
    {xs : List Copied} (h : TakenBy ids copied told i g acc xs) (hguard : g.WellFormed)
    (hown : g.ownDeviceId = ids i) {c : Incoming} {nowMs : UInt64}
    (htaken : g.verdict c nowMs = .accept) (hknown : ∃ j, c.deviceId = ids j) :
    TakenBy ids copied told i (g.record c) (acc ++ [c]) xs := by
  have hothers : ∀ c' ∈ acc ++ [c], ∃ j, j ≠ i ∧ c'.deviceId = ids j := by
    intro c' hc'
    rcases List.mem_append.mp hc' with hold | hnew
    · exact h.others c' hold
    · rw [List.mem_singleton.mp hnew]
      rcases hknown with ⟨j, hj⟩
      refine ⟨j, ?_, hj⟩
      rintro rfl
      exact (ReplayGuard.verdict_accept htaken).1 (hj.trans hown.symm)
  -- the account has no more devices than the guard has room for
  have hcard : (Finset.univ.image ids).card ≤ Core.DEFAULT_DEVICE_CAPACITY :=
    Finset.card_image_le.trans (Finset.card_univ.le.trans hfew)
  have hmem : ∀ c' ∈ acc ++ [c], c'.deviceId ∈ Finset.univ.image ids := by
    intro c' hc'
    rcases hothers c' hc' with ⟨j, -, hj⟩
    exact Finset.mem_image.mpr ⟨j, Finset.mem_univ j, hj.symm⟩
  refine { h with
    tracks := ReplayGuard.record_tracks hguard h.tracks htaken fun hnew =>
      ReplayGuard.room_of_devices hguard h.tracks hcard
        (fun c' hc' => hmem c' (List.mem_append_left [c] hc'))
        (hmem c (List.mem_append_right acc (List.mem_singleton_self c))) hnew
    others := hothers
    taken := ?_ }
  rw [List.map_append]
  exact h.taken.trans (List.sublist_append_left _ _)

/-- What it took was one of the texts, and the device is told it. -/
theorem TakenBy.tell {copied : List Copied} {told : List (ι × Told)} {i : ι} {g g' : ReplayGuard}
    {acc : List Incoming} {xs : List Copied} {c : Incoming} {x : Copied}
    (h : TakenBy ids copied told i g acc xs) (h' : TakenBy ids copied told i g' (acc ++ [c]) xs)
    (hx : x ∈ copied) (hdevice : c.deviceId = x.device) (hseq : c.seq = x.seq) (retained : Bool) :
    TakenBy ids copied (told ++ [x.told retained].map (Prod.mk i)) i g' (acc ++ [c])
      (xs ++ [x]) := by
  refine { h' with sealed := ?_, taken := ?_, told := ?_ }
  · intro y hy
    rcases List.mem_append.mp hy with hold | hnew
    · exact h.sealed y hold
    · rw [List.mem_singleton.mp hnew]
      exact hx
  · rw [List.map_append, List.map_append]
    refine h.taken.append ?_
    rw [List.map_singleton, List.map_singleton, hdevice, hseq]
  · have hmine : ([x.told retained].map (Prod.mk i)).filter (fun h => decide (h.1 = i)) =
        [(i, x.told retained)] :=
      List.filter_cons_of_pos (decide_eq_true rfl)
    rw [List.filter_append, hmine, List.map_append, List.map_append, h.told]
    rfl

theorem TakenBy.restart {copied : List Copied} {told : List (ι × Told)} {i : ι} {g : ReplayGuard}
    {acc : List Incoming} {xs : List Copied} (h : TakenBy ids copied told i g acc xs)
    (hguard : g.WellFormed) (own : DeviceId) :
    TakenBy ids copied told i ((ReplayGuard.new own DEFAULT_RETENTION_MS).restore g.memory) acc
      xs :=
  { h with tracks := ReplayGuard.restart_tracks hguard h.tracks own DEFAULT_RETENTION_MS }

/-- What holds of the session put in place of one, and of all others. -/
theorem forall_put {i : ι} {t : Session} (p : ι → Session → Prop) (hput : p i t)
    (hothers : ∀ j, j ≠ i → p j (w.session j)) :
    ∀ j, p j (Function.update w.session i t j) :=
  (Function.forall_update_iff w.session p).mpr ⟨hput, hothers⟩

/-- A device, left as another session, that sealed these texts and was told those. -/
theorem Kept.put (h : Kept ids w) (hdistinct : Function.Injective ids) (i : ι) {t : Session}
    (copied : List Copied) (told : List Told) (hdevice : t.deviceId = ids i)
    (hown : t.replay.ownDeviceId = ids i) (hguard : t.replay.WellFormed)
    (hseq : (w.session i).seq ≤ t.seq)
    (hnumbered : ∀ x ∈ copied, x.device = ids i ∧ (w.session i).seq ≤ x.seq ∧ x.seq ≤ t.seq)
    (hordered : copied.Pairwise fun x y => x.device = y.device → x.seq ≤ y.seq)
    (htaken : ∃ acc xs, TakenBy ids w.copied (w.told ++ told.map (Prod.mk i)) i t.replay acc xs) :
    Kept ids ⟨Function.update w.session i t, w.copied ++ copied,
      w.told ++ told.map (Prod.mk i)⟩ := by
  constructor
  case device => exact forall_put (fun j u => u.deviceId = ids j) hdevice fun j _ => h.device j
  case own => exact forall_put (fun j u => u.replay.ownDeviceId = ids j) hown fun j _ => h.own j
  case guard => exact forall_put (fun _ u => u.replay.WellFormed) hguard fun j _ => h.guard j
  case numbered =>
    intro x hx
    rcases List.mem_append.mp hx with hold | hnew
    · rcases h.numbered x hold with ⟨j, hj, hle⟩
      have hlater := forall_put (fun k u => (w.session k).seq ≤ u.seq) hseq
        (fun k _ => UInt64.le_refl _) j
      exact ⟨j, hj, UInt64.le_trans hle hlater⟩
    · rcases hnumbered x hnew with ⟨hx, -, hle⟩
      refine ⟨i, hx, ?_⟩
      simp only [Function.update_self]
      exact hle
  case ordered =>
    refine List.pairwise_append.mpr ⟨h.ordered, hordered, ?_⟩
    intro x hx y hy hsame
    rcases h.numbered x hx with ⟨j, hj, hle⟩
    rcases hnumbered y hy with ⟨hy, hge, -⟩
    have hji : j = i := hdistinct (hj.symm.trans (hsame.trans hy))
    rw [hji] at hle
    exact UInt64.le_trans hle hge
  case taken =>
    refine forall_put (fun j u => ∃ acc xs, TakenBy ids (w.copied ++ copied)
      (w.told ++ told.map (Prod.mk i)) j u.replay acc xs) ?_ ?_
    · rcases htaken with ⟨acc, xs, htaken⟩
      exact ⟨acc, xs, htaken.grow⟩
    · intro j hj
      rcases h.taken j with ⟨acc, xs, htaken⟩
      exact ⟨acc, xs, (htaken.other hj.symm told).grow⟩

/-- An act that tells nothing and leaves the guard as it is. -/
theorem Kept.quiet (h : Kept ids w) (hdistinct : Function.Injective ids) {i : ι} {t : Session}
    (copied : List Copied) (hkeeps : KeepsOn (w.session i) t)
    (hnumbered : ∀ x ∈ copied, x.device = ids i ∧ x.seq = t.seq) :
    Kept ids ⟨Function.update w.session i t, w.copied ++ copied,
      w.told ++ [].map (Prod.mk i)⟩ := by
  refine h.put hdistinct i copied [] (hkeeps.deviceId.trans (h.device i)) ?_ ?_ hkeeps.seq ?_ ?_ ?_
  · rw [hkeeps.replay]
    exact h.own i
  · rw [hkeeps.replay]
    exact h.guard i
  · intro x hx
    rcases hnumbered x hx with ⟨hdevice, hseq⟩
    rw [hseq]
    exact ⟨hdevice, hkeeps.seq, UInt64.le_refl _⟩
  · refine List.pairwise_of_forall_mem_list fun x hx y hy _ => ?_
    rw [(hnumbered x hx).2, (hnumbered y hy).2]
    exact UInt64.le_refl _
  · rw [hkeeps.replay, List.map_nil, List.append_nil]
    exact h.taken i

/-- A frame, to a device whose guard then takes one more or stays as it is. -/
theorem Kept.hears [Fintype ι] (hfew : Fintype.card ι ≤ Core.DEFAULT_DEVICE_CAPACITY)
    (h : Kept ids w) (hdistinct : Function.Injective ids) {i : ι} {d : Delivery} {t : Session}
    {told : List Told} (hhears : Session.Hears P T (w.session i) d t told)
    (hdevice : t.deviceId = (w.session i).deviceId) (hseq : t.seq = (w.session i).seq)
    (hunforged : w.Unforged P T i d) :
    Kept ids ⟨Function.update w.session i t, w.copied ++ [], w.told ++ told.map (Prod.mk i)⟩ := by
  rcases h.taken i with ⟨acc, xs, htaken⟩
  have hseq' : (w.session i).seq ≤ t.seq := hseq ▸ UInt64.le_refl _
  have hput {told : List Told} (hown : t.replay.ownDeviceId = (w.session i).replay.ownDeviceId)
      (hguard : t.replay.WellFormed) := h.put hdistinct i [] told
    (hdevice.trans (h.device i)) (hown.trans (h.own i)) hguard hseq' (by rintro x ⟨⟩)
    List.Pairwise.nil
  cases hhears with
  | nothing hsame =>
      refine hput (congrArg _ hsame) (hsame.symm ▸ h.guard i) ⟨acc, xs, ?_⟩
      rw [hsame, List.map_nil, List.append_nil]
      exact htaken
  | @clip clip msgId inner hframe hopens haccept hrecord =>
      have hown := record_own (w.session i).replay (incomingOf msgId inner clip.isRetained)
      have hguard := ReplayGuard.record_wellFormed (c := incomingOf msgId inner clip.isRetained)
        (h.guard i) (ReplayGuard.verdict_accept haccept).2.1
      rw [← hrecord] at hown hguard
      rcases hunforged.clip clip msgId inner hframe hopens with ⟨x, hx, -, rfl⟩
      rcases h.numbered x hx with ⟨j, hj, -⟩
      have hmore := htaken.record hfew (h.guard i) (h.own i) haccept ⟨j, hj⟩
      refine hput hown hguard
        ⟨acc ++ [incomingOf msgId x.inner clip.isRetained], xs ++ [x], ?_⟩
      rw [hrecord, toldOf_inner]
      exact htaken.tell hmore hx rfl rfl clip.isRetained
  | @image chunk msgId nonce a b piece inner hframe hopened hfinish haccept hrecord =>
      have hown := record_own (w.session i).replay (incomingOf msgId inner false)
      have hguard := ReplayGuard.record_wellFormed (c := incomingOf msgId inner false)
        (h.guard i) (ReplayGuard.verdict_accept haccept).2.1
      rw [← hrecord] at hown hguard
      rcases hunforged.image chunk msgId nonce a piece b inner hframe hopened hfinish with ⟨j, hj⟩
      have hmore := htaken.record hfew (h.guard i) (h.own i) haccept ⟨j, hj.trans (h.device j)⟩
      refine hput hown hguard ⟨acc ++ [incomingOf msgId inner false], xs, ?_⟩
      rw [hrecord, List.map_nil, List.append_nil]
      exact hmore

theorem sealedBy_numbered {t : Session} {event : LocalEvent} {nowMs : UInt64}
    {frames : List Message} {x : Copied} (hx : x ∈ sealedBy t event nowMs frames) :
    x.device = t.deviceId ∧ x.seq = t.seq := by
  unfold sealedBy at hx
  split at hx
  · rcases List.mem_map.mp hx with ⟨c, -, rfl⟩
    exact ⟨rfl, rfl⟩
  · cases hx

/-- What one device does keeps what holds of them all. -/
theorem Kept.step [Fintype ι] (hfew : Fintype.card ι ≤ Core.DEFAULT_DEVICE_CAPACITY)
    (hdistinct : Function.Injective ids) (e : ι × Act) (h : Kept ids w)
    (honest : w.Honest P T e) : Kept ids (w.step P T e) := by
  rcases e with ⟨i, act⟩
  cases act with
  | hello clientId =>
      refine h.quiet hdistinct [] ⟨rfl, rfl, UInt64.le_refl _⟩ ?_
      rintro x ⟨⟩
  | event observed draws =>
      have hkeeps := framesFor_keepsOn (P := P) (w.session i) observed draws
      unfold Account.step Act.apply
      simp only
      split
      · refine h.quiet hdistinct _ hkeeps fun x hx => ?_
        rcases sealedBy_numbered hx with ⟨hdevice, hseq⟩
        exact ⟨hdevice.trans (hkeeps.deviceId.trans (h.device i)), hseq⟩
      · refine h.quiet hdistinct [] hkeeps ?_
        rintro x ⟨⟩
  | deliver d =>
      rcases Session.deliver_hears (P := P) (T := T) (w.session i) d with ⟨hhears, hdevice, hseq⟩
      exact h.hears hfew hdistinct hhears hdevice hseq honest
  | restart t =>
      rcases honest with ⟨hdevice, hreplay, hseq⟩
      rcases h.taken i with ⟨acc, xs, htaken⟩
      have hguard := ReplayGuard.restart_wellFormed (w.session i).replay (w.session i).deviceId
        DEFAULT_RETENTION_MS
      rcases ReplayGuard.restore_memory (h.guard i) (w.session i).deviceId DEFAULT_RETENTION_MS
        with ⟨marks, hrestore, -⟩
      have hown : t.replay.ownDeviceId = ids i := by
        rw [hreplay, hrestore]
        exact h.device i
      have hkept : TakenBy ids w.copied (w.told ++ [].map (Prod.mk i)) i t.replay acc xs := by
        rw [hreplay, List.map_nil, List.append_nil]
        exact htaken.restart (h.guard i) _
      exact h.put hdistinct i [] [] (hdevice.trans (h.device i)) hown
        (hreplay ▸ hguard) hseq (by rintro x ⟨⟩) List.Pairwise.nil ⟨acc, xs, hkept⟩

theorem Starts.kept (h : w.Starts) : Kept (fun i => (w.session i).deviceId) w where
  device := fun _ => rfl
  own := by
    intro i
    rcases h.guards i with ⟨window, hnew⟩
    rw [hnew]
    rfl
  guard := by
    intro i
    rcases h.guards i with ⟨window, hnew⟩
    rw [hnew]
    exact ReplayGuard.new_wellFormed _ _
  numbered := by
    rw [h.copied]
    rintro x ⟨⟩
  ordered := by
    rw [h.copied]
    exact List.Pairwise.nil
  taken := by
    intro i
    rcases h.guards i with ⟨window, hnew⟩
    refine ⟨[], [], ?_⟩
    rw [hnew, h.told]
    exact {
      tracks := ReplayGuard.new_tracks _ _
      others := by rintro c ⟨⟩
      sealed := by rintro x ⟨⟩
      taken := List.Sublist.slnil
      told := rfl }

/-- No device is told a text of its own. -/
theorem TakenBy.of_another {copied : List Copied} {told : List (ι × Told)} {i : ι}
    {g : ReplayGuard} {acc : List Incoming} {xs : List Copied}
    (h : TakenBy ids copied told i g acc xs) {heard : ι × Told} (hheard : heard ∈ told)
    (hi : heard.1 = i) : ∃ j, j ≠ i ∧ heard.2.device = ids j := by
  have hkept : heard ∈ told.filter fun k => decide (k.1 = i) :=
    List.mem_filter.mpr ⟨hheard, decide_eq_true hi⟩
  have hmine := List.mem_map_of_mem (f := fun k : ι × Told => (k.2.device, k.2.text, k.2.tsMs))
    hkept
  rw [h.told] at hmine
  rcases List.mem_map.mp hmine with ⟨x, hx, hsame⟩
  rcases List.mem_map.mp (h.taken.subset (List.mem_map_of_mem hx)) with ⟨c, hc, hcx⟩
  rcases h.others c hc with ⟨j, hj, hcj⟩
  refine ⟨j, hj, ?_⟩
  calc heard.2.device = x.device := (congrArg Prod.fst hsame).symm
    _ = c.deviceId := (congrArg Prod.fst hcx).symm
    _ = ids j := hcj

/-- What relates the numbers of one device relates them in what is left of it alone. -/
theorem pairwise_of_device {xs : List Copied} {r : UInt64 → UInt64 → Prop}
    (h : xs.Pairwise fun x y => x.device = y.device → r x.seq y.seq) (device : DeviceId) :
    (xs.filter fun x => decide (x.device = device)).Pairwise fun x y => r x.seq y.seq := by
  refine List.Pairwise.imp_of_mem ?_ (h.filter _)
  intro x y hx hy hr
  have hxdevice := of_decide_eq_true (List.mem_filter.mp hx).2
  have hydevice := of_decide_eq_true (List.mem_filter.mp hy).2
  exact hr (hxdevice.trans hydevice.symm)

/-- Of what one device was told, what is of another is some of what the other sealed, in order. -/
theorem TakenBy.toldTo {i : ι} {g : ReplayGuard} {acc : List Incoming} {xs : List Copied}
    (h : TakenBy ids w.copied w.told i g acc xs)
    (hordered : w.copied.Pairwise fun x y => x.device = y.device → x.seq ≤ y.seq)
    (device : DeviceId) : (w.toldTo i device).Sublist (w.copiedBy device) := by
  have htold : w.toldTo i device =
      (xs.filter fun x => decide (x.device = device)).map fun x => (x.text, x.tsMs) := by
    calc w.toldTo i device
        = (((w.told.filter fun h => decide (h.1 = i)).map fun h =>
            (h.2.device, h.2.text, h.2.tsMs)).filter fun k => decide (k.1 = device)).map
              Prod.snd := by
          rw [Account.toldTo, List.filter_map, List.map_map, List.filter_filter]
          simp only [Function.comp_def, Bool.decide_and, Bool.and_comm]
      _ = ((xs.map fun x => (x.device, x.text, x.tsMs)).filter fun k =>
            decide (k.1 = device)).map Prod.snd := by rw [h.told]
      _ = _ := by
          rw [List.filter_map, List.map_map]
          rfl
  -- the guard only takes rising numbers, and the texts were sealed under ones that never fall
  have haccepted : (acc.map fun c => (c.deviceId, c.seq)).Pairwise
      fun a b => a.1 = b.1 → a.2 < b.2 := List.pairwise_map.mpr h.tracks.ordered
  have hrising := pairwise_of_device (List.pairwise_map.mp (haccepted.sublist h.taken)) device
  have hsorted := pairwise_of_device hordered device
  rw [htold, Account.copiedBy]
  refine (Numbered.sublist_of_increasing (fun x => x.seq.toNat)
    (hrising.imp UInt64.lt_iff_toNat_lt.mp) (hsorted.imp UInt64.le_iff_toNat_le.mp) ?_).map _
  intro x hx
  rcases List.mem_filter.mp hx with ⟨hmem, hdevice⟩
  exact List.mem_filter.mpr ⟨h.sealed x hmem, hdevice⟩

/-- Whatever the relay delivers, and however the devices start again: what a device is told of is
never its own, and is some of what another one sealed, in the order it was sealed. -/
theorem told_in_order [Fintype ι] (hfew : Fintype.card ι ≤ Core.DEFAULT_DEVICE_CAPACITY)
    (hstarts : w.Starts) (es : List (ι × Act))
    (honest : Runs.Along (step P T) (Honest P T) w es) :
    (∀ h ∈ (w.run P T es).told, ∃ j, j ≠ h.1 ∧ h.2.device = (w.session j).deviceId) ∧
      ∀ i j, ((w.run P T es).toldTo i (w.session j).deviceId).Sublist
        ((w.run P T es).copiedBy (w.session j).deviceId) := by
  have hkept : Kept (fun i => (w.session i).deviceId) (w.run P T es) :=
    Runs.invariant (step P T) (Kept fun i => (w.session i).deviceId)
      (fun _ e h honest => h.step hfew hstarts.distinct e honest) es hstarts.kept honest
  constructor
  · intro h hh
    rcases hkept.taken h.1 with ⟨acc, xs, htaken⟩
    exact htaken.of_another hh rfl
  · intro i j
    rcases hkept.taken i with ⟨acc, xs, htaken⟩
    exact htaken.toldTo hkept.ordered _

end Kept

namespace OneText

open Session.ThreePieces (primitives account sender receiver)
open Session.OneText (frame jsonText)

/-- Two devices of an account that have just come online. -/
def start : Account Bool where
  session := fun i => if i then receiver else sender
  copied := []
  told := []

def draws : EventDraws where
  nowMs := 0
  frame := Session.OneText.draw
  card := ⟨none, none⟩
  imageId := none
  pieces := fun _ => none
  boxes := fun _ => ⟨none, none⟩

def delivery : Delivery := ⟨frame.toFrame, 0, Session.BringUp.draws⟩

/-- The one sends a text, which the relay delivers to the other twice. -/
def twice : List (Bool × Act) :=
  [(false, .event (.text "hi") draws), (true, .deliver delivery), (true, .deliver delivery)]

theorem no_chunk : Session.chunkOf jsonText delivery.frame = none := by
  have hread : Session.frameOf jsonText frame.toFrame = some frame :=
    Session.frameOf_toFrame Session.OneText.reads_frame rfl
  have hother : Session.chunkOf? frame = none := rfl
  rw [delivery, Session.chunkOf, hread]
  exact hother

/-- The frame of the text can tell a device nothing else. -/
theorem unforged {w : Account Bool} {i : Bool} (haccount : (w.session i).identity = account)
    (hcopied : Session.OneText.copied ∈ w.copied) : w.Unforged primitives jsonText i delivery where
  clip := by
    intro clip msgId inner hframe hopens
    exact ⟨Session.OneText.copied, hcopied, Session.OneText.opens_as_copied haccount hframe hopens⟩
  image := by
    intro chunk msgId nonce a piece b inner hchunk
    rw [no_chunk] at hchunk
    cases hchunk

end OneText

open OneText in
/-- Delivered twice, the text is told once. -/
theorem told_in_order_twice :
    (((start.run Session.ThreePieces.primitives Session.OneText.jsonText twice).toldTo true
        (ByteArr.fill 16 1)).Sublist
      ((start.run Session.ThreePieces.primitives Session.OneText.jsonText twice).copiedBy
        (ByteArr.fill 16 1))) := by
  have hstarts : start.Starts := {
    distinct := by decide
    guards := by
      intro i
      cases i with
      | false => exact ⟨DEFAULT_RETENTION_MS, rfl⟩
      | true => exact ⟨DEFAULT_RETENTION_MS, rfl⟩
    copied := rfl
    told := rfl }
  have hfew : Fintype.card Bool ≤ Core.DEFAULT_DEVICE_CAPACITY := by decide
  have hsent : (start.step Session.ThreePieces.primitives Session.OneText.jsonText
      (false, .event (.text "hi") draws)).session true = Session.ThreePieces.receiver :=
    step_other _ _ start (by decide) _
  have hfirst := unforged (i := true) (congrArg Session.identity hsent) (List.mem_singleton_self _)
  refine (told_in_order hfew hstarts twice ⟨trivial, hfirst, unforged ?_ ?_, trivial⟩).2 true false
  · rw [step_deliver, hsent]
    exact (Session.handleFrame_other no_chunk _ _).1.identity
  · exact List.mem_singleton_self _

end Account

end Net
end Asli
