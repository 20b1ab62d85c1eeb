import Asli.Relay.EventActs

/-!
# ClipOrder — a slow receiver gets its clips in order

A clip for a connection goes out at once or waits in the one pending slot, where the next clip takes
its place.  `InOrder` relates what was handed to the connection with what was sent to
it; every act of the relay keeps it, so the clips sent are a subsequence of the clips handed over
and the newest one is never lost behind an older one.
-/

namespace Asli
namespace Relay

open Logic

/-! ## What a receiver is handed and sent -/

section Logs

variable (host : Host) (b : Handle)

/-- A clip that an effect hands to the connection, to be sent now or later. -/
def handedClip : Effect → Option String
  | .forward _ receiver raw => if receiver = b ∧ IsClip host raw then some raw else none
  | _ => none

/-- A live clip that an effect sends to the connection. -/
def sentClip : Effect → Option String
  | .send receiver (.frame raw) => if receiver = b ∧ IsClip host raw then some raw else none
  | _ => none

/-- The clips handed to the connection, in order. -/
def clipsForwarded (out : List Effect) : List String :=
  out.filterMap (handedClip host b)

/-- The live clips sent to the connection, in order. -/
def clipsSent (out : List Effect) : List String :=
  out.filterMap (sentClip host b)

end Logs

variable {host : Host} {b : Handle} {out new : List Effect} {e : Effect}

theorem clipsForwarded_append :
    clipsForwarded host b (out ++ new) = clipsForwarded host b out ++ clipsForwarded host b new :=
  List.filterMap_append

theorem clipsSent_append :
    clipsSent host b (out ++ new) = clipsSent host b out ++ clipsSent host b new :=
  List.filterMap_append

/-- Effects that hand nothing on leave both records as they are. -/
theorem logs_quiet (hnew : ∀ e ∈ new, e.carries = false) :
    clipsForwarded host b new = [] ∧ clipsSent host b new = [] := by
  constructor
  · refine List.filterMap_eq_nil_iff.mpr ?_
    intro e he
    have hquiet := hnew e he
    cases e with
    | forward sender receiver raw => cases hquiet
    | send | close | terminate | ping | refuse | verify => rfl
  · refine List.filterMap_eq_nil_iff.mpr ?_
    intro e he
    have hquiet := hnew e he
    cases e with
    | send receiver data =>
        cases data with
        | frame raw => cases hquiet
        | json payload => rfl
        | stored payload => rfl
    | forward | close | terminate | ping | refuse | verify => rfl

/-! ## The invariant -/

/-- What was handed to the connection, against what was sent to it. -/
structure InOrder (host : Host) (b : Handle) (handed sent : List String) (r : RelayState) : Prop
    where
  clips : ∀ raw ∈ handed, IsClip host raw
  sublist : sent.Sublist handed
  /-- The parked clip is the newest one, and was not sent. -/
  parked : ∀ s ∈ r.sessions, s.handle = b → ∀ raw, s.pendingClip = some raw →
    ∃ before, handed = before ++ [raw] ∧ sent.Sublist before
  /-- With nothing parked, the newest clip has been sent. -/
  newest : ∀ s ∈ r.sessions, s.handle = b → s.isOpen = true → s.pendingClip = none →
    handed.getLast? = sent.getLast?
  future : r.nextHandle ≤ b → handed = [] ∧ sent = []

namespace InOrder

variable {handed sent : List String} {r r' : RelayState} {s : Session} {raw : String}

theorem start (host : Host) (config : Config) (now : Int) (b : Handle) :
    InOrder host b [] [] (createRelay config now) where
  clips := fun _ h => absurd h List.not_mem_nil
  sublist := List.Sublist.refl []
  parked := fun _ h => absurd h List.not_mem_nil
  newest := fun _ h => absurd h List.not_mem_nil
  future := fun _ => ⟨rfl, rfl⟩

/-- Sessions that keep their parked clips, where none is opened again. -/
theorem renew (h : InOrder host b handed sent r) {g : Session → Session}
    (hsessions : r'.sessions = r.sessions.map g) (hnext : r'.nextHandle = r.nextHandle)
    (hg : ∀ s ∈ r.sessions, (g s).handle = s.handle ∧ (s.handle = b →
      (g s).pendingClip = s.pendingClip ∧ ((g s).isOpen = true → s.isOpen = true))) :
    InOrder host b handed sent r' where
  clips := h.clips
  sublist := h.sublist
  parked := by
    intro s' hs' hhandle raw hraw
    rw [hsessions] at hs'
    obtain ⟨s, hs, rfl⟩ := List.mem_map.mp hs'
    obtain ⟨hsame, hkept⟩ := hg s hs
    have hb : s.handle = b := hsame ▸ hhandle
    exact h.parked s hs hb raw ((hkept hb).1 ▸ hraw)
  newest := by
    intro s' hs' hhandle hopen hnone
    rw [hsessions] at hs'
    obtain ⟨s, hs, rfl⟩ := List.mem_map.mp hs'
    obtain ⟨hsame, hkept⟩ := hg s hs
    have hb : s.handle = b := hsame ▸ hhandle
    exact h.newest s hs hb ((hkept hb).2 hopen) ((hkept hb).1 ▸ hnone)
  future := fun hle => h.future (hnext ▸ hle)

/-- Sessions that go, and sessions of other connections. -/
theorem less (h : InOrder host b handed sent r) (hnext : r'.nextHandle = r.nextHandle)
    (hsub : ∀ s ∈ r'.sessions, s.handle = b → s ∈ r.sessions) : InOrder host b handed sent r' where
  clips := h.clips
  sublist := h.sublist
  parked := fun s hs hhandle => h.parked s (hsub s hs hhandle) hhandle
  newest := fun s hs hhandle => h.newest s (hsub s hs hhandle) hhandle
  future := fun hle => h.future (hnext ▸ hle)

/-- The session of the connection before and after something is done to it alone. -/
theorem replace (hr : WellNumbered r) (hs : s ∈ r.sessions) {f : Session → Session}
    (hsessions : r'.sessions = r.sessions.map fun p => if p.handle = s.handle then f p else p)
    {p : Session} (hp : p ∈ r'.sessions) (hf : (f s).handle = s.handle)
    (hhandle : p.handle = s.handle) : p = f s := by
  rw [hsessions] at hp
  obtain ⟨q, hq, rfl⟩ := List.mem_map.mp hp
  by_cases hsame : q.handle = s.handle
  · obtain rfl := hr.eq_of_handle hq hs hsame
    exact if_pos rfl
  · rw [if_neg hsame] at hhandle
    exact absurd hhandle hsame

/-- A clip is handed over and parked. -/
theorem park (h : InOrder host b handed sent r) (hclip : IsClip host raw)
    (hnext : b < r'.nextHandle)
    (hpending : ∀ s ∈ r'.sessions, s.handle = b → s.pendingClip = some raw) :
    InOrder host b (handed ++ [raw]) sent r' where
  clips := by
    intro other hother
    rcases List.mem_append.mp hother with hold | hnew
    · exact h.clips other hold
    · exact List.mem_singleton.mp hnew ▸ hclip
  sublist := h.sublist.trans (List.sublist_append_left handed [raw])
  parked := by
    intro s hs hhandle other hother
    rw [hpending s hs hhandle] at hother
    cases hother
    exact ⟨handed, rfl, h.sublist⟩
  newest := by
    intro s hs hhandle _ hnone
    rw [hpending s hs hhandle] at hnone
    cases hnone
  future := fun hle => absurd hnext (Nat.not_lt.mpr hle)

/-- A clip is handed over and sent at once. -/
theorem send (h : InOrder host b handed sent r) (hclip : IsClip host raw)
    (hnext : b < r'.nextHandle)
    (hpending : ∀ s ∈ r'.sessions, s.handle = b → s.pendingClip = none) :
    InOrder host b (handed ++ [raw]) (sent ++ [raw]) r' where
  clips := by
    intro other hother
    rcases List.mem_append.mp hother with hold | hnew
    · exact h.clips other hold
    · exact List.mem_singleton.mp hnew ▸ hclip
  sublist := h.sublist.append (List.Sublist.refl [raw])
  parked := by
    intro s hs hhandle other hother
    rw [hpending s hs hhandle] at hother
    cases hother
  newest := fun _ _ _ _ _ => by rw [List.getLast?_append, List.getLast?_append]; rfl
  future := fun hle => absurd hnext (Nat.not_lt.mpr hle)

/-- The parked clip goes out. -/
theorem unpark (h : InOrder host b handed sent r) (hs : s ∈ r.sessions) (hhandle : s.handle = b)
    (hraw : s.pendingClip = some raw) (hnext : b < r'.nextHandle)
    (hpending : ∀ s ∈ r'.sessions, s.handle = b → s.pendingClip = none) :
    InOrder host b handed (sent ++ [raw]) r' := by
  obtain ⟨before, rfl, hsub⟩ := h.parked s hs hhandle raw hraw
  exact
    { clips := h.clips
      sublist := hsub.append (List.Sublist.refl [raw])
      parked := by
        intro p hp hb other hother
        rw [hpending p hp hb] at hother
        cases hother
      newest := fun _ _ _ _ _ => by rw [List.getLast?_append, List.getLast?_append]; rfl
      future := fun hle => absurd hnext (Nat.not_lt.mpr hle) }

/-- The parked clip of a socket that is shut is given up. -/
theorem abandon (h : InOrder host b handed sent r) (hnext : b < r'.nextHandle)
    (hlost : ∀ s ∈ r'.sessions, s.handle = b → s.pendingClip = none ∧ s.isOpen = false) :
    InOrder host b handed sent r' where
  clips := h.clips
  sublist := h.sublist
  parked := by
    intro p hp hb other hother
    rw [(hlost p hp hb).1] at hother
    cases hother
  newest := by
    intro p hp hb hopen
    rw [(hlost p hp hb).2] at hopen
    cases hopen
  future := fun hle => absurd hnext (Nat.not_lt.mpr hle)

end InOrder

/-! ## One act -/

section Step

variable {env : Env} {t t' : Turn} {handed sent : List String}

/-- The invariant of a turn, after what was handed and sent in earlier events. -/
def OrderedTurn (host : Host) (b : Handle) (handed sent : List String) (t : Turn) : Prop :=
  InOrder host b (handed ++ clipsForwarded host b t.out) (sent ++ clipsSent host b t.out) t.relay

theorem ordered_still (h : OrderedTurn host b handed sent t) (hstill : Still t t') :
    OrderedTurn host b handed sent t' := by
  obtain ⟨g, new, hsessions, hnext, hout, hnew, hg⟩ := hstill
  obtain ⟨hforwarded, hsent⟩ : clipsForwarded host b new = [] ∧ clipsSent host b new = [] :=
    logs_quiet hnew
  unfold OrderedTurn
  rw [hout, clipsForwarded_append, clipsSent_append, hforwarded, hsent, List.append_nil,
    List.append_nil]
  exact h.renew hsessions hnext fun s hs =>
    ⟨(hg s hs).1, fun _ => ⟨(hg s hs).2.1, (hg s hs).2.2.2⟩⟩

/-- An effect that is nothing to this receiver. -/
theorem ordered_emit (h : OrderedTurn host b handed sent t) {e : Effect}
    (hhanded : handedClip host b e = none) (hsent : sentClip host b e = none) :
    OrderedTurn host b handed sent (t.emit e) := by
  have hforwarded : clipsForwarded host b (t.out ++ [e]) = clipsForwarded host b t.out := by
    rw [clipsForwarded_append]
    simp [clipsForwarded, hhanded]
  have hlive : clipsSent host b (t.out ++ [e]) = clipsSent host b t.out := by
    rw [clipsSent_append]
    simp [clipsSent, hsent]
  unfold OrderedTurn Turn.emit
  rw [hforwarded, hlive]
  exact h

theorem ordered_update (h : OrderedTurn host b handed sent t) {k : Handle} {f : Session → Session}
    (hf : ∀ s, (f s).handle = s.handle) (hkept : k = b → ∀ s, (f s).pendingClip = s.pendingClip ∧
      ((f s).isOpen = true → s.isOpen = true)) : OrderedTurn host b handed sent (t.update k f) := by
  refine h.renew (g := fun s => if s.handle = k then f s else s) rfl rfl ?_
  intro s _
  split
  next hk => exact ⟨hf s, fun hb => hkept (hk.symm.trans hb) s⟩
  next => exact ⟨rfl, fun _ => ⟨rfl, id⟩⟩

/-- Handing a clip over: parked, or sent at once. -/
theorem ordered_deliver (h : OrderedTurn host b handed sent t) (hr : WellNumbered t.relay)
    {p : Session} (hp : p ∈ t.relay.sessions) (sender : Handle) {raw : String}
    (hclip : IsClip host raw) :
    OrderedTurn host b handed sent (deliver host env sender p raw t) := by
  have hbounded := hr.bounded p hp
  unfold deliver
  split
  · exact h
  next hopen =>
    have hopen : p.isOpen = true := by simpa using hopen
    by_cases hb : p.handle = b
    · subst hb
      have hforwarded : clipsForwarded host p.handle (t.out ++ [.forward sender p.handle raw]) =
          clipsForwarded host p.handle t.out ++ [raw] := by
        rw [clipsForwarded_append]
        simp [clipsForwarded, handedClip, hclip]
      have hlive : clipsSent host p.handle (t.out ++ [.forward sender p.handle raw]) =
          clipsSent host p.handle t.out := by
        rw [clipsSent_append]
        simp [clipsSent, sentClip]
      dsimp only
      split
      · -- behind another clip, or behind what the socket has not drained
        unfold OrderedTurn
        change InOrder host p.handle
          (handed ++ clipsForwarded host p.handle (t.out ++ [.forward sender p.handle raw]))
          (sent ++ clipsSent host p.handle (t.out ++ [.forward sender p.handle raw])) _
        rw [hforwarded, hlive, ← List.append_assoc]
        refine h.park hclip hbounded ?_
        intro q hq hhandle
        have hsame := InOrder.replace (f := fun p => { p with
            pendingClip := some raw
            backpressureSinceMs := some (p.backpressureSinceMs.getD (env.now .park)) })
          hr hp rfl hq rfl hhandle
        rw [hsame]
      next hfree =>
        have hnone : p.pendingClip = none := by
          rw [Bool.or_eq_true, not_or] at hfree
          simpa using hfree.1
        have hwrites : (t.emit (.forward sender p.handle raw)).isOpen p.handle = true := by
          have hsame : (t.emit (.forward sender p.handle raw)).isOpen p.handle =
              t.isOpen p.handle :=
            rfl
          rw [hsame, hr.isOpen hp]
          exact hopen
        unfold Turn.wsSend
        rw [if_pos hwrites]
        unfold OrderedTurn
        change InOrder host p.handle
          (handed ++ clipsForwarded host p.handle
            (t.out ++ [.forward sender p.handle raw] ++ [.send p.handle (.frame raw)]))
          (sent ++ clipsSent host p.handle
            (t.out ++ [.forward sender p.handle raw] ++ [.send p.handle (.frame raw)])) t.relay
        have hlast : clipsForwarded host p.handle [.send p.handle (.frame raw)] = [] := by
          simp [clipsForwarded, handedClip]
        have hsent : clipsSent host p.handle [.send p.handle (.frame raw)] = [raw] := by
          simp [clipsSent, sentClip, hclip]
        rw [clipsForwarded_append, clipsSent_append, hforwarded, hlive, hlast, hsent,
          List.append_nil, ← List.append_assoc, ← List.append_assoc]
        refine h.send hclip hbounded ?_
        intro q hq hhandle
        rw [hr.eq_of_handle hq hp hhandle]
        exact hnone
    · -- somebody else's clip
      have hforward : OrderedTurn host b handed sent (t.emit (.forward sender p.handle raw)) :=
        ordered_emit h (by simp [handedClip, hb]) rfl
      dsimp only
      split
      · exact ordered_update hforward (fun _ => rfl) fun heq => absurd heq hb
      · unfold Turn.wsSend
        split
        · exact ordered_emit hforward rfl (by simp [sentClip, hb])
        · exact hforward

/-- A frame that is no clip. -/
theorem ordered_pass (h : OrderedTurn host b handed sent t) {sender receiver : Handle}
    {raw : String} (hclip : ¬ IsClip host raw) :
    OrderedTurn host b handed sent
      ((t.emit (.forward sender receiver raw)).wsSend receiver (.frame raw)) := by
  have hforward : OrderedTurn host b handed sent (t.emit (.forward sender receiver raw)) :=
    ordered_emit h (by simp [handedClip, hclip]) rfl
  unfold Turn.wsSend
  split
  · exact ordered_emit hforward rfl (by simp [sentClip, hclip])
  · exact hforward

/-- One turn of the flusher. -/
theorem ordered_flushOne (h : OrderedTurn host b handed sent t) (hr : WellNumbered t.relay)
    {s : Session} (hs : s ∈ t.relay.sessions) :
    OrderedTurn host b handed sent (flushOne host env s t) := by
  have hbounded := hr.bounded s hs
  unfold flushOne
  extract_lets stalled
  have hstalled : OrderedTurn host b handed sent
      (if stalled then t.wsClose s.handle 1009 "send buffer stalled" else t) := by
    split
    · exact ordered_still h (Still.wsClose _ _ _)
    · exact h
  split
  next raw hraw =>
    split
    · by_cases hb : s.handle = b
      · subst hb
        generalize hf : (fun p : Session =>
            { p with pendingClip := none, backpressureSinceMs := none })
          = f
        have hfs : f s = { s with pendingClip := none, backpressureSinceMs := none } := by rw [← hf]
        have hhandle : (f s).handle = s.handle := by rw [hfs]
        have hcleared : ∀ p ∈ (t.update s.handle f).relay.sessions, p.handle = s.handle →
            p = f s := fun p hp hp' => InOrder.replace hr hs rfl hp hhandle hp'
        have hclip : IsClip host raw := by
          obtain ⟨before, heq, -⟩ := h.parked s hs rfl raw hraw
          refine h.clips raw ?_
          rw [heq]
          exact List.mem_append_right before (List.mem_singleton_self raw)
        have hwrites : (t.update s.handle f).isOpen s.handle = s.isOpen := by
          rw [update_isOpen hr hs hhandle, hfs]
        unfold Turn.wsSend
        rw [hwrites]
        split
        · unfold OrderedTurn
          change InOrder host s.handle
            (handed ++ clipsForwarded host s.handle (t.out ++ [.send s.handle (.frame raw)]))
            (sent ++ clipsSent host s.handle (t.out ++ [.send s.handle (.frame raw)])) _
          have hlast : clipsForwarded host s.handle [.send s.handle (.frame raw)] = [] := by
            simp [clipsForwarded, handedClip]
          have hsent : clipsSent host s.handle [.send s.handle (.frame raw)] = [raw] := by
            simp [clipsSent, sentClip, hclip]
          rw [clipsForwarded_append, clipsSent_append, hlast, hsent, List.append_nil,
            ← List.append_assoc]
          refine h.unpark hs rfl hraw hbounded ?_
          intro p hp hp'
          rw [hcleared p hp hp', hfs]
        next hshut =>
          refine h.abandon hbounded ?_
          intro p hp hp'
          rw [hcleared p hp hp', hfs]
          exact ⟨rfl, Bool.eq_false_iff.mpr hshut⟩
      · have hupdated : OrderedTurn host b handed sent (t.update s.handle fun p =>
            { p with pendingClip := none, backpressureSinceMs := none }) :=
          ordered_update h (fun _ => rfl) fun heq => absurd heq hb
        unfold Turn.wsSend
        split
        · exact ordered_emit hupdated rfl (by simp [sentClip, hb])
        · exact hupdated
    · exact hstalled
  · exact hstalled

/-- Every act keeps the receiver in order. -/
theorem ordered_does {a : Act} {x : Env × Event} (h : OrderedTurn host b handed sent t)
    (hr : Sane t.relay) (hmay : May host x a) (hdoes : Does host x.1 a t t') :
    OrderedTurn host b handed sent t' := by
  by_cases hidle : a.idle = true
  · exact ordered_still h (hdoes.still hr.numbered hidle)
  · cases hdoes with
    | assemble k f => exact ordered_update h (fun _ => rfl) fun _ _ => ⟨rfl, id⟩
    | clip hp sender raw => exact ordered_deliver h hr.numbered hp sender hmay.2
    | pass hp sender raw => exact ordered_pass h hmay.2
    | unpark hs => exact ordered_flushOne h hr.numbered hs
    | enter ipKey =>
        -- a connection that is new has been handed nothing
        unfold OrderedTurn at h ⊢
        by_cases hb : t.relay.nextHandle ≤ b
        · obtain ⟨hnothing, hnone⟩ := h.future hb
          exact
            { clips := h.clips
              sublist := h.sublist
              parked := by
                intro s hs hhandle raw hraw
                rcases List.mem_append.mp hs with hold | hnew
                · exact absurd (hr.numbered.bounded s hold) (Nat.not_lt.mpr (hhandle ▸ hb))
                · rw [List.mem_singleton.mp hnew] at hraw
                  cases hraw
              newest := by
                intro s _ _ _ _
                change List.getLast? (handed ++ clipsForwarded host b t.out) =
                  List.getLast? (sent ++ clipsSent host b t.out)
                rw [hnothing, hnone]
              future := fun hle => h.future hb }
        · have hother : ∀ s ∈ t.relay.sessions ++ [newSession host x.1 t.relay.nextHandle ipKey],
              s.handle = b → s ∈ t.relay.sessions := by
            intro s hs hhandle
            rcases List.mem_append.mp hs with hold | hnew
            · exact hold
            · rw [List.mem_singleton.mp hnew] at hhandle
              exact absurd (le_of_eq hhandle) hb
          exact
            { clips := h.clips
              sublist := h.sublist
              parked := fun s hs hhandle => h.parked s (hother s hs hhandle) hhandle
              newest := fun s hs hhandle => h.newest s (hother s hs hhandle) hhandle
              future := fun hle => absurd (le_trans (Nat.le_succ _) hle) hb }
    | drop hs hjoined => exact h.less rfl fun s hs _ => (List.mem_filter.mp hs).1
    | @depart _ s hs hjoined =>
        have hleft : OrderedTurn host b handed sent ((t.dropSession s.handle).setRegistry
            (t.relay.registry.leave s.conn (x.1.now .handler))) :=
          h.less rfl fun s hs _ => (List.mem_filter.mp hs).1
        exact ordered_still hleft (Still.broadcastPresence _)
    | books | room | broadcast | fire | note | say | reply | shut | tweak | place | letIn
    | shutdown => exact absurd rfl hidle

end Step

/-! ## Runs -/

variable {start : Int}

theorem inOrder_run (host : Host) (start : Int) (b : Handle) (run : List (Env × Event)) :
    InOrder host b (clipsForwarded host b (sentOver host start run))
      (clipsSent host b (sentOver host start run)) (relayAt host start run) := by
  induction run using List.reverseRecOn with
  | nil => exact InOrder.start host host.config start b
  | append_singleton run x ih =>
      have hsane := relayAt_sane host start run
      have hstart : OrderedTurn host b (clipsForwarded host b (sentOver host start run))
          (clipsSent host b (sentOver host start run))
          { relay := relayAt host start run, out := [] } := by
        unfold OrderedTurn
        change InOrder host b (clipsForwarded host b (sentOver host start run) ++ [])
          (clipsSent host b (sentOver host start run) ++ []) (relayAt host start run)
        rw [List.append_nil, List.append_nil]
        exact ih
      have hend := (step_acts hsane x).invariant
        (p := fun t => Sane t.relay ∧ OrderedTurn host b
          (clipsForwarded host b (sentOver host start run))
          (clipsSent host b (sentOver host start run)) t) ⟨hsane, hstart⟩
        fun t t' a hmay hdoes ht => ⟨hdoes.sane ht.1, ordered_does ht.2 ht.1 hmay hdoes⟩
      rw [relayAt_snoc, sentOver_snoc, clipsForwarded_append, clipsSent_append]
      exact hend.2

/-- In every run of the relay, the live clips sent to a connection are, in the same
order, clips that were handed to it; and while it is open the newest clip handed to it is the one in
its pending slot, or the last one sent. -/
theorem clips_in_order (host : Host) (start : Int) (run : List (Env × Event)) (b : Handle) :
    (clipsSent host b (sentOver host start run)).Sublist
        (clipsForwarded host b (sentOver host start run)) ∧
      ∀ s ∈ (relayAt host start run).sessions, s.handle = b → s.isOpen = true →
        ∀ raw, (clipsForwarded host b (sentOver host start run)).getLast? = some raw →
          s.pendingClip = some raw ∨
            (s.pendingClip = none ∧
              (clipsSent host b (sentOver host start run)).getLast? = some raw) := by
  have h := inOrder_run host start b run
  refine ⟨h.sublist, ?_⟩
  intro s hs hhandle hopen raw hlast
  cases hpending : s.pendingClip with
  | none => exact Or.inr ⟨rfl, (h.newest s hs hhandle hopen hpending) ▸ hlast⟩
  | some parked =>
      obtain ⟨before, heq, -⟩ := h.parked s hs hhandle parked hpending
      rw [heq, List.getLast?_append] at hlast
      exact Or.inl hlast

end Relay
end Asli
