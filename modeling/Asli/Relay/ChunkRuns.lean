import Asli.Relay.Heard

/-!
# ChunkRuns — what becomes of a chunked message

A connection has one assembly.  A `clip_begin` starts it afresh; any other chunk has
to match it, and starts it only when there is none that is still alive.  `chunk_forwarded_iff`
follows a whole run of pieces and says exactly which of them go through: an assembly lives for
`CHUNK_ASSEMBLY_TIMEOUT_MS` after its first piece, however lively the stream, and a message of one
piece, which has no `clip_begin`, runs into an assembly that was left behind.
-/

namespace Asli
namespace Relay

open Logic

variable {host : Host} {env : Env} {r : RelayState} {x : Env × Event} {s p : Session}
  {raw : String} {message : Envelope} {t t' t₁ : Turn} {h : Handle}

/-! ## Assemblies that stay as they are -/

/-- Sessions whose numbers and assemblies are those they had. -/
def SameAssembly (t t' : Turn) : Prop :=
  ∃ g : Session → Session, t'.relay.sessions = t.relay.sessions.map g ∧
    t'.relay.nextHandle = t.relay.nextHandle ∧
      ∀ s ∈ t.relay.sessions, (g s).handle = s.handle ∧ (g s).assembly = s.assembly

namespace SameAssembly

theorem of_same (hsessions : t'.relay.sessions = t.relay.sessions)
    (hnext : t'.relay.nextHandle = t.relay.nextHandle) : SameAssembly t t' :=
  ⟨id, hsessions.trans (List.map_id _).symm, hnext, fun _ _ => ⟨rfl, rfl⟩⟩

theorem refl (t : Turn) : SameAssembly t t :=
  of_same rfl rfl

theorem trans (hfirst : SameAssembly t t₁) (hsecond : SameAssembly t₁ t') : SameAssembly t t' := by
  obtain ⟨g, hsessions, hnext, hg⟩ := hfirst
  obtain ⟨g', hsessions', hnext', hg'⟩ := hsecond
  refine ⟨g' ∘ g, ?_, hnext'.trans hnext, ?_⟩
  · rw [hsessions', hsessions, List.map_map]
  · intro s hs
    have hmem : g s ∈ t₁.relay.sessions := by
      rw [hsessions]
      exact List.mem_map_of_mem hs
    obtain ⟨hhandle, hassembly⟩ := hg s hs
    obtain ⟨hhandle', hassembly'⟩ := hg' (g s) hmem
    exact ⟨hhandle'.trans hhandle, hassembly'.trans hassembly⟩

theorem of_still (hstill : Still t t') : SameAssembly t t' := by
  obtain ⟨g, -, hsessions, hnext, -, -, hg⟩ := hstill
  exact ⟨g, hsessions, hnext, fun s hs => ⟨(hg s hs).1, (hg s hs).2.2.1⟩⟩

theorem update {f : Session → Session}
    (hf : ∀ s, (f s).handle = s.handle ∧ (f s).assembly = s.assembly) :
    SameAssembly t (t.update h f) := by
  refine ⟨fun s => if s.handle = h then f s else s, rfl, rfl, ?_⟩
  intro s _
  dsimp only
  split
  · exact hf s
  · exact ⟨rfl, rfl⟩

theorem wsSend (h : Handle) (data : Outgoing) : SameAssembly t (t.wsSend h data) := by
  refine of_same ?_ ?_
  · rw [wsSend_relay]
  · rw [wsSend_relay]

theorem wsClose (h : Handle) (code : Nat) (reason : String) :
    SameAssembly t (t.wsClose h code reason) :=
  of_still (Still.wsClose h code reason)

theorem deliver (sender : Handle) (p : Session) (raw : String) :
    SameAssembly t (deliver host env sender p raw t) := by
  unfold Relay.deliver
  split
  · exact refl t
  · have hforward : SameAssembly t (t.emit (.forward sender p.handle raw)) := of_same rfl rfl
    dsimp only
    split
    · exact hforward.trans (update fun _ => ⟨rfl, rfl⟩)
    · exact hforward.trans (wsSend _ _)

theorem deliverChunk (sender : Handle) (p : Session) (raw : String) :
    SameAssembly t (deliverChunk host env sender p raw t) := by
  unfold Relay.deliverChunk
  split
  · exact refl t
  · split
    · exact wsClose _ _ _
    · have hforward : SameAssembly t (t.emit (.forward sender p.handle raw)) := of_same rfl rfl
      exact hforward.trans (wsSend _ _)

theorem flushOne (s : Session) : SameAssembly t (flushOne host env s t) := by
  unfold Relay.flushOne
  extract_lets stalled
  have hstalled : SameAssembly t
      (if stalled then t.wsClose s.handle 1009 "send buffer stalled" else t) := by
    split
    · exact wsClose _ _ _
    · exact refl t
  split
  · split
    · have hcleared : SameAssembly t (t.update s.handle fun p =>
          { p with pendingClip := none, backpressureSinceMs := none }) := update fun _ => ⟨rfl, rfl⟩
      exact hcleared.trans (wsSend _ _)
    · exact hstalled
  · exact hstalled

theorem fanOut {send : Session → Turn → Turn} (hsend : ∀ p t, SameAssembly t (send p t))
    (peers : List Session) : SameAssembly t (fanOut send peers t) := by
  induction peers generalizing t with
  | nil => exact refl t
  | cons p peers ih => exact (hsend p t).trans ih

end SameAssembly

/-- What holds of the assembly of a connection, whether it has a session yet or not. -/
structure AssemblyIs (h : Handle) (q : Option ChunkAssembly → Prop) (r : RelayState) : Prop where
  session : ∀ s ∈ r.sessions, s.handle = h → q s.assembly
  future : r.nextHandle ≤ h → q none

section Quiet

variable {q : Option ChunkAssembly → Prop}

theorem AssemblyIs.same (hq : AssemblyIs h q t.relay) (hsame : SameAssembly t t') :
    AssemblyIs h q t'.relay := by
  obtain ⟨g, hsessions, hnext, hg⟩ := hsame
  refine ⟨?_, fun hle => hq.future (hnext ▸ hle)⟩
  intro s' hs' hhandle
  rw [hsessions] at hs'
  obtain ⟨s, hs, rfl⟩ := List.mem_map.mp hs'
  obtain ⟨hkept, hassembly⟩ := hg s hs
  rw [hassembly]
  exact hq.session s hs (hkept.symm.trans hhandle)

theorem AssemblyIs.sublist (hq : AssemblyIs h q t.relay)
    (hsub : ∀ s ∈ t'.relay.sessions, s ∈ t.relay.sessions)
    (hnext : t'.relay.nextHandle = t.relay.nextHandle) : AssemblyIs h q t'.relay :=
  ⟨fun s hs => hq.session s (hsub s hs), fun hle => hq.future (hnext ▸ hle)⟩

/-- Only the chunks of a connection touch its assembly. -/
theorem assembly_does {a : Act} (hdoes : Does host env a t t') (hr : WellNumbered t.relay)
    (hother : a ≠ .assemble h) (hq : AssemblyIs h q t.relay) : AssemblyIs h q t'.relay := by
  by_cases hidle : a.idle = true
  · exact hq.same (SameAssembly.of_still (hdoes.still hr hidle))
  · cases hdoes with
    | assemble k f =>
        have hne : k ≠ h := fun heq => hother (heq ▸ rfl)
        refine ⟨?_, hq.future⟩
        intro s' hs' hhandle
        obtain ⟨s, hs, rfl⟩ := List.mem_map.mp hs'
        by_cases hk : s.handle = k
        · rw [if_pos hk] at hhandle
          exact absurd (hk.symm.trans hhandle) hne
        · rw [if_neg hk] at hhandle ⊢
          exact hq.session s hs hhandle
    | clip hp sender raw => exact hq.same (SameAssembly.deliver sender _ raw)
    | @pass _ p hp sender raw =>
        have hforward : SameAssembly t (t.emit (.forward sender p.handle raw)) :=
          SameAssembly.of_same rfl rfl
        exact hq.same (hforward.trans (SameAssembly.wsSend _ _))
    | unpark hs => exact hq.same (SameAssembly.flushOne _)
    | enter ipKey =>
        refine ⟨?_, fun hle => hq.future (Nat.le_of_succ_le hle)⟩
        intro s hs hhandle
        rcases List.mem_append.mp hs with hold | hnew
        · exact hq.session s hold hhandle
        · -- a new connection has no assembly
          rw [List.mem_singleton.mp hnew] at hhandle ⊢
          exact hq.future (le_of_eq hhandle)
    | drop hs hjoined => exact hq.sublist (fun s hs => (List.mem_filter.mp hs).1) rfl
    | @depart _ s hs hjoined =>
        have hleft : AssemblyIs h q ((t.dropSession s.handle).setRegistry
            (t.relay.registry.leave s.conn (env.now .handler))).relay :=
          hq.sublist (fun s hs => (List.mem_filter.mp hs).1) rfl
        exact hleft.same (SameAssembly.of_still (Still.broadcastPresence _))
    | books | room | broadcast | fire | note | say | reply | shut | tweak | place | letIn
    | shutdown => exact absurd rfl hidle

/-- Whether an event is a piece of a chunked message of this connection. -/
def ChunkOf (host : Host) (h : Handle) (x : Env × Event) : Prop :=
  ∃ raw, x.2 = .message h (.text raw) ∧ IsChunk host raw

theorem assembly_step (hr : Sane r) (hquiet : ¬ ChunkOf host h x) (hq : AssemblyIs h q r) :
    AssemblyIs h q (step host r x).1 := by
  have hacts : Doing host x ⟨r, []⟩ _ := step_acts hr x
  have hend := hacts.invariant
    (p := fun t => Sane t.relay ∧ AssemblyIs h q t.relay) ⟨hr, hq⟩ ?_
  · exact hend.2
  · rintro t t' a ha hdoes ⟨hsane, hbefore⟩
    refine ⟨hdoes.sane hsane, assembly_does hdoes hsane.numbered ?_ hbefore⟩
    rintro rfl
    exact hquiet ha

theorem after_sane (hr : Sane r) (run : List (Env × Event)) : Sane (after host r run) := by
  induction run generalizing r with
  | nil => exact hr
  | cons x run ih => exact ih ((step_acts hr x : Doing host x ⟨r, []⟩ _).sane hr)

theorem assembly_after (hr : Sane r) {run : List (Env × Event)}
    (hquiet : ∀ x ∈ run, ¬ ChunkOf host h x) (hq : AssemblyIs h q r) :
    AssemblyIs h q (after host r run) := by
  induction run generalizing r with
  | nil => exact hq
  | cons x run ih =>
      refine ih ((step_acts hr x : Doing host x ⟨r, []⟩ _).sane hr)
        (fun y hy => hquiet y (List.mem_cons_of_mem x hy)) ?_
      exact assembly_step hr (hquiet x List.mem_cons_self) hq

end Quiet

/-! ## One piece -/

/-- The piece of a chunked message that an event brings: validated, of the sender's
room and within the budgets.  Its type, its message, its index and the number of pieces. -/
def chunkAt (host : Host) (r : RelayState) (x : Env × Event) :
    Option (FrameType × String × Nat × Nat) :=
  match heard host r x with
  | none => none
  | some (s, raw, message) =>
      match validateChunk message host.config.maxFrameBytes with
      | none => none
      | some chunk =>
          if message.type ∈ CHUNK_TYPES ∧ roomKeyOf chunk.roomText = some s.conn.roomId ∧
              (chargeBulk host x.1 s raw.utf8ByteSize { relay := r, out := [] }).1 = true
          then some (message.type, chunk.msgIdText, chunk.idx, chunk.chunkCount)
          else none

/-- Another connection that a frame of this one is for. -/
structure Receives (r : RelayState) (h : Handle) (p : Session) : Prop where
  member : p ∈ r.sessions
  other : p.handle ≠ h
  open_ : p.isOpen = true
  ready : ∀ s ∈ r.sessions, s.handle = h → p.readyIn s.conn.roomId = true

/-- A bulk frame is charged to two quotas, and to nothing else. -/
theorem chargeBulk_granted (host : Host) (env : Env) (s : Session) (bytes : Nat) (t : Turn) :
    (chargeBulk host env s bytes t).1 =
      ((((t.relay.roomTransferQuotas.lookup s.conn.roomId).getD (RollingQuota.new
          host.config.roomTransferBytesPerDay DAY_MS (env.now .charge))).charge bytes
            (env.now .charge)).1 &&
        (t.relay.globalTransferQuota.charge bytes (env.now .charge)).1) := by
  unfold chargeBulk
  extract_lets now quota charged retry t₁ globally
  split
  next hrefused =>
    have hrefused : charged.1 = false := by simpa using hrefused
    change false = (charged.1 && _)
    rw [hrefused]
    rfl
  next hgranted =>
    have hgranted : charged.1 = true := by simpa using hgranted
    change _ = (charged.1 && globally.1)
    rw [hgranted, Bool.true_and]
    split
    next hrefused =>
      have hrefused : globally.1 = false := by simpa using hrefused
      exact hrefused.symm
    next hgranted =>
      have hgranted : globally.1 = true := by simpa using hgranted
      exact hgranted.symm

/-- A granted charge changes quotas only. -/
theorem chargeBulk_kept {bytes : Nat} (hgranted : (chargeBulk host env s bytes t).1 = true) :
    (chargeBulk host env s bytes t).2.relay.sessions = t.relay.sessions ∧
      (chargeBulk host env s bytes t).2.relay.nextHandle = t.relay.nextHandle ∧
      (chargeBulk host env s bytes t).2.out = t.out := by
  unfold chargeBulk at hgranted ⊢
  dsimp only at hgranted ⊢
  split at hgranted
  · cases hgranted
  next hroom =>
    rw [if_neg hroom]
    split at hgranted
    · cases hgranted
    next hglobal =>
      rw [if_neg hglobal]
      exact ⟨rfl, rfl, rfl⟩

/-- What the relay knows when a piece has come: the session and the message it came in, and the turn
its handler starts from. -/
structure Piece (host : Host) (r : RelayState) (x : Env × Event) (s : Session) (raw : String)
    (message : Envelope) (chunk : ChunkFields) (t : Turn) : Prop where
  hears : Hears host r x s raw message t
  valid : validateChunk message host.config.maxFrameBytes = some chunk
  room : roomKeyOf chunk.roomText = some s.conn.roomId
  charged : (chargeBulk host x.1 s raw.utf8ByteSize t).1 = true
  handled : handle host x.1 x.2 { relay := r, out := [] } = handleChunk host x.1 s raw message t
  out : t.out = []
  same : SameAssembly { relay := r, out := [] } t

theorem piece_of_chunkAt {type : FrameType} {msgId : String} {idx count : Nat}
    (hchunk : chunkAt host r x = some (type, msgId, idx, count)) :
    ∃ s raw message chunk t, Piece host r x s raw message chunk t ∧ message.type = type ∧
      chunk.msgIdText = msgId ∧ chunk.idx = idx ∧ chunk.chunkCount = count := by
  unfold chunkAt at hchunk
  split at hchunk
  · cases hchunk
  next s raw message hheard =>
    split at hchunk
    · cases hchunk
    next chunk hvalid =>
      split at hchunk
      next htaken =>
        obtain ⟨htype, hroom, hcharged⟩ := htaken
        cases hchunk
        obtain ⟨t, hears⟩ := handle_heard hheard
        obtain ⟨g, ht, hg⟩ := hears.turn
        refine ⟨s, raw, message, chunk, t, ⟨hears, hvalid, hroom, ?_, ?_, ?_, ?_⟩, rfl, rfl,
            rfl, rfl⟩
        · rw [chargeBulk_granted] at hcharged ⊢
          rw [ht]
          exact hcharged
        · rw [hears.handled]
          unfold handleReady
          rcases List.mem_cons.mp htype with htype | htype
          · rw [htype]
          · rcases List.mem_cons.mp htype with htype | htype
            · rw [htype]
            · rw [List.mem_singleton.mp htype]
        · rw [ht]
          rfl
        · rw [ht]
          exact SameAssembly.update fun p => ⟨congrArg Connection.handle (hg p).conn,
              (hg p).assembly⟩
      next => cases hchunk

theorem SameAssembly.numbered (hsame : SameAssembly t t') (hr : WellNumbered t.relay) :
    WellNumbered t'.relay := by
  obtain ⟨g, hsessions, hnext, hg⟩ := hsame
  exact hr.of_map hsessions hnext fun s hs => (hg s hs).1

theorem assemblyIs_update (hbounded : h < t.relay.nextHandle) (c : Option ChunkAssembly) :
    AssemblyIs h (fun o => o = c)
      (t.update h fun p => { p with assembly := c }).relay := by
  refine ⟨?_, fun hle => absurd hbounded (Nat.not_lt.mpr hle)⟩
  intro s' hs' hhandle
  obtain ⟨s, -, rfl⟩ := List.mem_map.mp hs'
  by_cases hs : s.handle = h
  · rw [if_pos hs]
  · rw [if_neg hs] at hhandle
    exact absurd hhandle hs

namespace Piece

variable {chunk : ChunkFields} {a : ChunkAssembly}

theorem bounded (hpiece : Piece host r x s raw message chunk t) (hr : Sane r) :
    s.handle < t.relay.nextHandle ∧ WellNumbered t.relay := by
  have hnumbered := hpiece.same.numbered hr.numbered
  exact ⟨hnumbered.bounded s hpiece.hears.session, hnumbered⟩

/-- A connection that a frame is for is found where the fan out looks. -/
theorem recipient (hpiece : Piece host r x s raw message chunk t) (hp : Receives r s.handle p)
    {t₁ : Turn} (hsessions : t₁.relay.sessions = t.relay.sessions) (f : Session → Session) :
    p ∈ recipients s (t₁.update s.handle f) := by
  obtain ⟨g, ht, -⟩ := hpiece.hears.turn
  obtain ⟨s₀, hs₀, hinert⟩ := hpiece.hears.before
  have hstart : p ∈ t.relay.sessions := by
    rw [ht]
    exact mem_update_other (t := ⟨r, []⟩) hp.member hp.other
  have hready : p.readyIn s.conn.roomId = true := by
    rw [hinert.conn]
    exact hp.ready s₀ hs₀ (congrArg Connection.handle hinert.conn).symm
  refine List.mem_filter.mpr ⟨mem_update_other ?_ hp.other, ?_⟩
  · rw [hsessions]
    exact hstart
  · rw [hready, Bool.and_true]
    exact bne_iff_ne.mpr hp.other

/-- A piece of the assembly in progress goes to everybody who can take it. -/
theorem accepted (hpiece : Piece host r x s raw message chunk t) (hr : Sane r)
    (hcurrent : currentAssembly s chunk message.type (x.1.now .handler) = some a)
    (hmsgId : a.msgId = chunk.msgIdText) (hcount : a.chunkCount = chunk.chunkCount) :
    (∀ p, Receives r s.handle p →
      (Effect.forward s.handle p.handle raw ∈ (step host r x).2 ↔
        x.1.bufferedAmount p.handle ≤ host.config.backpressureHardBytes)) ∧
      AssemblyIs s.handle
        (fun o => o = if message.type = .clipEnd then none else some { a with
          received := a.received + 1, bytes := a.bytes + raw.utf8ByteSize }) (step host r x).1 := by
  obtain ⟨hsessions, hnext, hout⟩ := chargeBulk_kept hpiece.charged
  obtain ⟨hbounded, -⟩ := hpiece.bounded hr
  change (∀ p, Receives r s.handle p →
    (_ ∈ (handle host x.1 x.2 ⟨r, []⟩).out ↔ _)) ∧
      AssemblyIs _ _ (handle host x.1 x.2 ⟨r, []⟩).relay
  rw [hpiece.handled]
  unfold handleChunk
  rw [hpiece.valid]
  dsimp only
  rw [if_neg (not_not.mpr hpiece.room), hcurrent]
  dsimp only
  rw [if_neg (by simp [hmsgId, hcount]), if_neg (by simp [hpiece.charged])]
  generalize hstarted : (chargeBulk host x.1 s raw.utf8ByteSize t).2.update s.handle (fun p =>
    { p with assembly := some { a with
        received := a.received + 1, bytes := a.bytes + raw.utf8ByteSize } }) = t₁
  have hnext₁ : s.handle < t₁.relay.nextHandle := by
    rw [← hstarted]
    exact hnext.symm ▸ hbounded
  have hout₁ : t₁.out = [] := by
    rw [← hstarted]
    exact hout.trans hpiece.out
  have hfan : SameAssembly t₁
      (fanOut (fun peer => deliverChunk host x.1 s.handle peer raw) (recipients s t₁) t₁) :=
    SameAssembly.fanOut (fun _ _ => SameAssembly.deliverChunk _ _ _) _
  constructor
  · intro p hp
    have hmem : p ∈ recipients s t₁ := by
      rw [← hstarted]
      exact hpiece.recipient hp hsessions _
    have hfanned : Effect.forward s.handle p.handle raw ∈
        (fanOut (fun peer => deliverChunk host x.1 s.handle peer raw) (recipients s t₁) t₁).out ↔
          x.1.bufferedAmount p.handle ≤ host.config.backpressureHardBytes := by
      rw [forward_fanChunk, hout₁]
      constructor
      · rintro (hnone | ⟨q, -, ⟨-, hhandle, -⟩, -, hfree⟩)
        · exact absurd hnone List.not_mem_nil
        · rw [hhandle]
          exact hfree
      · intro hfree
        exact Or.inr ⟨p, hmem, ⟨rfl, rfl, rfl⟩, hp.open_, hfree⟩
    split
    · exact hfanned
    · exact hfanned
  · split
    · obtain ⟨-, -, hfanNext, -⟩ := hfan
      exact assemblyIs_update (hfanNext.symm ▸ hnext₁) none
    · refine AssemblyIs.same ?_ hfan
      rw [← hstarted]
      exact assemblyIs_update (hnext.symm ▸ hbounded) _

/-- With nothing in progress, a piece from the middle is refused. -/
theorem unstarted (hpiece : Piece host r x s raw message chunk t) (hr : Sane r)
    (hcurrent : currentAssembly s chunk message.type (x.1.now .handler) = none) :
    (∀ b, Effect.forward s.handle b raw ∉ (step host r x).2) ∧
      AssemblyIs s.handle (fun o => o = staleDropped s (x.1.now .handler)) (step host r x).1 := by
  obtain ⟨hbounded, hnumbered⟩ := hpiece.bounded hr
  change (∀ b, _ ∉ (handle host x.1 x.2 ⟨r, []⟩).out) ∧
    AssemblyIs _ _ (handle host x.1 x.2 ⟨r, []⟩).relay
  rw [hpiece.handled]
  unfold handleChunk
  rw [hpiece.valid]
  dsimp only
  rw [if_neg (not_not.mpr hpiece.room), hcurrent]
  dsimp only
  constructor
  · intro b hmem
    have hbefore := forward_wsSend.mp hmem
    change _ ∈ t.out at hbefore
    rw [hpiece.out] at hbefore
    exact absurd hbefore List.not_mem_nil
  · refine AssemblyIs.same ?_ (SameAssembly.wsSend _ _)
    refine ⟨?_, fun hle => absurd hbounded (Nat.not_lt.mpr hle)⟩
    intro s' hs' hhandle
    obtain ⟨q, hq, rfl⟩ := List.mem_map.mp hs'
    by_cases hsame : q.handle = s.handle
    · obtain rfl := hnumbered.eq_of_handle hq hpiece.hears.session hsame
      rw [if_pos rfl]
    · rw [if_neg hsame] at hhandle
      exact absurd hhandle hsame

/-- A piece of another message is refused, and the assembly in progress is given up. -/
theorem mismatched (hpiece : Piece host r x s raw message chunk t) (hr : Sane r)
    (hcurrent : currentAssembly s chunk message.type (x.1.now .handler) = some a)
    (hmsgId : a.msgId ≠ chunk.msgIdText) :
    (∀ b, Effect.forward s.handle b raw ∉ (step host r x).2) ∧
      AssemblyIs s.handle (fun o => o = none) (step host r x).1 := by
  obtain ⟨hbounded, -⟩ := hpiece.bounded hr
  change (∀ b, _ ∉ (handle host x.1 x.2 ⟨r, []⟩).out) ∧
    AssemblyIs _ _ (handle host x.1 x.2 ⟨r, []⟩).relay
  rw [hpiece.handled]
  unfold handleChunk
  rw [hpiece.valid]
  dsimp only
  rw [if_neg (not_not.mpr hpiece.room), hcurrent]
  dsimp only
  rw [if_pos (Or.inl hmsgId)]
  constructor
  · intro b hmem
    have hbefore := forward_wsSend.mp hmem
    rw [hpiece.out] at hbefore
    exact absurd hbefore List.not_mem_nil
  · refine assemblyIs_update ?_ none
    change s.handle < (t.wsSend _ _).relay.nextHandle
    rw [wsSend_relay]
    exact hbounded

end Piece

/-! ## A run of pieces -/

/-- A frame of a chunked message, after everything that happens since the one before it. -/
structure ChunkFrame where
  before : List (Env × Event)
  env : Env
  raw : String

namespace ChunkFrame

def event (h : Handle) (f : ChunkFrame) : Env × Event :=
  (f.env, .message h (.text f.raw))

def events (h : Handle) (f : ChunkFrame) : List (Env × Event) :=
  f.before ++ [f.event h]

/-- The time at which the relay handles the frame. -/
def arrivedMs (f : ChunkFrame) : Int :=
  f.env.now .handler

end ChunkFrame

/-- The relay just before a frame, after the frames before it. -/
def reached (host : Host) (r : RelayState) (h : Handle) (past : List ChunkFrame) (f : ChunkFrame) :
    RelayState :=
  after host r (past.flatMap (ChunkFrame.events h) ++ f.before)

/-- The type that a client gives the piece of this index. -/
def pieceType (idx count : Nat) : FrameType :=
  if idx + 1 = count then .clipEnd else if idx = 0 then .clipBegin else .clipChunk

/-- A connection sends all the pieces of a message in order, under an id that is not
in progress, and no other pieces meanwhile; each is validated, of its room and within the rates
and budgets. -/
structure ChunkRun (host : Host) (r : RelayState) (h : Handle) (msgId : String)
    (frames : List ChunkFrame) : Prop where
  taken : ∀ past f later, frames = past ++ f :: later →
    chunkAt host (reached host r h past f) (f.event h) =
      some (pieceType past.length frames.length, msgId, past.length, frames.length)
  quiet : ∀ f ∈ frames, ∀ x ∈ f.before, ¬ ChunkOf host h x
  fresh : ∀ s ∈ r.sessions, s.handle = h → ∀ a, s.assembly = some a → a.msgId ≠ msgId

/-- No assembly that was left behind is still alive. -/
def NoLeftover (r : RelayState) (h : Handle) (nowMs : Int) : Prop :=
  ∀ s ∈ r.sessions, s.handle = h → staleDropped s nowMs = none

/-- The frames that came before the assembly of the first one timed out. -/
def InTime (startedMs : Int) (frames : List ChunkFrame) : Prop :=
  ∀ f ∈ frames, f.arrivedMs - startedMs ≤ CHUNK_ASSEMBLY_TIMEOUT_MS

/-- The assembly of a message that began at some time. -/
def Assembling (msgId : String) (count : Nat) (startedMs : Int) (o : Option ChunkAssembly) : Prop :=
  ∃ a, o = some a ∧ a.msgId = msgId ∧ a.chunkCount = count ∧ a.startedMs = startedMs

/-- The assembly in progress after some frames: theirs, or none once one of them was late. -/
def Progress (msgId : String) (count : Nat) (startedMs : Int) (past : List ChunkFrame)
    (o : Option ChunkAssembly) : Prop :=
  (InTime startedMs past → Assembling msgId count startedMs o) ∧
      (¬ InTime startedMs past → o = none)

theorem after_append (host : Host) (r : RelayState) (run later : List (Env × Event)) :
    after host r (run ++ later) = after host (after host r run) later :=
  List.foldl_append

/-- The relay after the frames so far. -/
theorem after_frames (host : Host) (r : RelayState) (h : Handle) (past : List ChunkFrame)
    (f : ChunkFrame) :
    after host r ((past ++ [f]).flatMap (ChunkFrame.events h)) =
      (step host (reached host r h past f) (f.event h)).1 := by
  unfold reached
  rw [List.flatMap_append, List.flatMap_singleton, ChunkFrame.events, ← List.append_assoc,
    after_append]
  rfl

theorem inTime_snoc {startedMs : Int} {past : List ChunkFrame} {f : ChunkFrame} :
    InTime startedMs (past ++ [f]) ↔
      InTime startedMs past ∧ f.arrivedMs - startedMs ≤ CHUNK_ASSEMBLY_TIMEOUT_MS := by
  simp [InTime, or_imp, forall_and]

section Run

variable {msgId : String} {count : Nat} {startedMs : Int} {past : List ChunkFrame} {f : ChunkFrame}
  {type : FrameType} {idx : Nat}

/-- The piece that a frame brings, and the session it comes from. -/
theorem piece_of_frame (hchunk : chunkAt host r (f.event h) = some (type, msgId, idx, count)) :
    ∃ s message chunk t, Piece host r (f.event h) s f.raw message chunk t ∧ s.handle = h ∧
      message.type = type ∧ chunk.msgIdText = msgId ∧ chunk.idx = idx ∧
      chunk.chunkCount = count ∧ ∀ q, AssemblyIs h q r → q s.assembly := by
  obtain ⟨s, raw, message, chunk, t, hpiece, htype, hmsgId, hidx, hcount⟩ := piece_of_chunkAt hchunk
  have hevent := hpiece.hears.event
  change Event.message h (.text f.raw) = .message s.handle (.text raw) at hevent
  injection hevent with hhandle hdata
  injection hdata with hraw
  subst hraw
  refine ⟨s, message, chunk, t, hpiece, hhandle.symm, htype, hmsgId, hidx, hcount, ?_⟩
  intro q hq
  obtain ⟨s₀, hs₀, hinert⟩ := hpiece.hears.before
  rw [hinert.assembly]
  refine hq.session s₀ hs₀ ?_
  exact (congrArg Connection.handle hinert.conn).symm.trans hhandle.symm

theorem AssemblyIs.mono {q q' : Option ChunkAssembly → Prop} (hq : AssemblyIs h q r)
    (himp : ∀ o, q o → q' o) : AssemblyIs h q' r :=
  ⟨fun s hs hhandle => himp _ (hq.session s hs hhandle), fun hle => himp _ (hq.future hle)⟩

/-- The frame that begins an assembly: the first of several, or an only one with none
in progress. -/
theorem first_frame (hr : Sane r)
    (hchunk : chunkAt host r (f.event h) = some (pieceType 0 count, msgId, 0, count))
    (hfree : count = 1 → AssemblyIs h (fun o => ∀ a, o = some a →
      f.arrivedMs - a.startedMs > CHUNK_ASSEMBLY_TIMEOUT_MS) r) :
    (∀ p, Receives r h p →
      (Effect.forward h p.handle f.raw ∈ (step host r (f.event h)).2 ↔
        f.env.bufferedAmount p.handle ≤ host.config.backpressureHardBytes)) ∧
      (count ≠ 1 → AssemblyIs h (Assembling msgId count f.arrivedMs)
        (step host r (f.event h)).1) := by
  obtain ⟨s, message, chunk, t, hpiece, rfl, htype, rfl, hidx, rfl, hassembly⟩ :=
    piece_of_frame hchunk
  have hstarts : message.type = .clipBegin ∨ staleDropped s f.arrivedMs = none := by
    rw [htype]
    unfold pieceType
    by_cases hone : 0 + 1 = chunk.chunkCount
    · refine Or.inr ?_
      have hstale := hassembly _ (hfree hone.symm)
      unfold staleDropped
      cases ha : s.assembly with
      | none => rfl
      | some a => exact if_pos (hstale a ha)
    · rw [if_neg hone]
      exact Or.inl (if_pos rfl)
  have hcurrent : currentAssembly s chunk message.type f.arrivedMs =
      some { msgId := chunk.msgIdText, chunkCount := chunk.chunkCount, received := 0, bytes := 0,
             startedMs := f.arrivedMs } := by
    unfold currentAssembly
    rw [if_pos hstarts, if_neg (not_not.mpr hidx)]
  obtain ⟨hforward, hafter⟩ := hpiece.accepted hr hcurrent rfl rfl
  refine ⟨hforward, fun hcount => hafter.mono ?_⟩
  rintro o rfl
  have hmore : message.type ≠ .clipEnd := by
    rw [htype]
    unfold pieceType
    rw [if_neg (Ne.symm hcount), if_pos rfl]
    exact fun heq => nomatch heq
  rw [if_neg hmore]
  exact ⟨_, rfl, rfl, rfl, rfl⟩

/-- A later frame: it goes through while the assembly lives, and no frame does after a late one. -/
theorem later_frame (hr : Sane r) (hpast : past ≠ [])
    (hchunk : chunkAt host r (f.event h) =
      some (pieceType past.length count, msgId, past.length, count))
    (hprogress : AssemblyIs h (Progress msgId count startedMs past) r) :
    (∀ p, Receives r h p →
      (Effect.forward h p.handle f.raw ∈ (step host r (f.event h)).2 ↔
        InTime startedMs (past ++ [f]) ∧
          f.env.bufferedAmount p.handle ≤ host.config.backpressureHardBytes)) ∧
      (past.length + 1 ≠ count → AssemblyIs h (Progress msgId count startedMs (past ++ [f]))
        (step host r (f.event h)).1) := by
  obtain ⟨s, message, chunk, t, hpiece, rfl, htype, rfl, hidx, rfl, hassembly⟩ :=
    piece_of_frame hchunk
  have hlength : past.length ≠ 0 := fun heq => hpast (List.length_eq_zero_iff.mp heq)
  have hbegin : message.type ≠ .clipBegin := by
    rw [htype]
    unfold pieceType
    by_cases hlast : past.length + 1 = chunk.chunkCount
    · rw [if_pos hlast]
      exact fun heq => nomatch heq
    · rw [if_neg hlast, if_neg hlength]
      exact fun heq => nomatch heq
  obtain ⟨halive, hdead⟩ := hassembly _ hprogress
  by_cases htime : InTime startedMs (past ++ [f])
  · -- the assembly is alive
    obtain ⟨hbefore, hnow⟩ := inTime_snoc.mp htime
    obtain ⟨a, ha, hmsgId, hcount, hstarted⟩ := halive hbefore
    have hlives : staleDropped s f.arrivedMs = some a := by
      unfold staleDropped
      rw [ha]
      refine if_neg ?_
      rw [hstarted]
      exact Int.not_lt.mpr hnow
    have hcurrent : currentAssembly s chunk message.type f.arrivedMs = some a := by
      unfold currentAssembly
      rw [if_neg, hlives]
      rintro (hfirst | hnone)
      · exact hbegin hfirst
      · rw [hlives] at hnone
        cases hnone
    obtain ⟨hforward, hafter⟩ := hpiece.accepted hr hcurrent hmsgId hcount
    refine ⟨fun p hp => (hforward p hp).trans (and_iff_right htime).symm, fun hmore =>
        hafter.mono ?_⟩
    rintro o rfl
    have hlast : message.type ≠ .clipEnd := by
      rw [htype]
      unfold pieceType
      rw [if_neg hmore, if_neg hlength]
      exact fun heq => nomatch heq
    rw [if_neg hlast]
    exact ⟨fun _ => ⟨_, rfl, hmsgId, hcount, hstarted⟩, fun hlate => absurd htime hlate⟩
  · -- it was given up earlier, or times out now
    have hdropped : staleDropped s f.arrivedMs = none := by
      by_cases hbefore : InTime startedMs past
      · obtain ⟨a, ha, -, -, hstarted⟩ := halive hbefore
        unfold staleDropped
        rw [ha]
        refine if_pos ?_
        rw [hstarted]
        exact Int.not_le.mp fun hnow => htime (inTime_snoc.mpr ⟨hbefore, hnow⟩)
      · unfold staleDropped
        rw [hdead hbefore]
    have hcurrent : currentAssembly s chunk message.type f.arrivedMs = none := by
      unfold currentAssembly
      rw [if_pos (Or.inr hdropped), if_pos]
      rw [hidx]
      exact hlength
    obtain ⟨hforward, hafter⟩ := hpiece.unstarted hr hcurrent
    refine ⟨fun p _ => iff_of_false (hforward p.handle) fun hin => htime hin.1, fun _ =>
      hafter.mono ?_⟩
    rintro o rfl
    exact ⟨fun hin => absurd hin htime, fun _ => hdropped⟩

end Run

/-! ## Which pieces go through -/

section Through

variable {msgId : String} {frames past later : List ChunkFrame} {f first : ChunkFrame}

/-- What happens before a frame leaves the assembly alone. -/
theorem ChunkRun.before (hrun : ChunkRun host r h msgId frames) (hr : Sane r)
    (hsplit : frames = past ++ f :: later) {q : Option ChunkAssembly → Prop}
    (hq : AssemblyIs h q (after host r (past.flatMap (ChunkFrame.events h)))) :
    AssemblyIs h q (reached host r h past f) := by
  unfold reached
  rw [after_append]
  have hmem : f ∈ frames := by
    rw [hsplit]
    exact List.mem_append_right past List.mem_cons_self
  exact assembly_after (after_sane hr _) (hrun.quiet f hmem) hq

theorem reached_sane (hr : Sane r) : Sane (reached host r h past f) :=
  after_sane hr _

/-- Between the frames of a message the relay keeps their assembly, as long as it is in time. -/
theorem ChunkRun.progress (hrun : ChunkRun host r h msgId frames) (hr : Sane r)
    (hfirst : frames.head? = some first) (hsplit : frames = past ++ f :: later)
        (hpast : past ≠ []) :
    AssemblyIs h (Progress msgId frames.length first.arrivedMs past) (reached host r h past f) := by
  induction past using List.reverseRecOn generalizing f later with
  | nil => exact absurd rfl hpast
  | append_singleton past g ih =>
      have hearlier : frames = past ++ g :: f :: later := by
        rw [hsplit, List.append_assoc]
        rfl
      have hlength : past.length + 1 < frames.length := by
        rw [hearlier, List.length_append, List.length_cons, List.length_cons]
        omega
      refine hrun.before hr hsplit ?_
      rw [after_frames]
      by_cases hstart : past = []
      · -- the first frame
        subst hstart
        rw [hearlier] at hfirst
        obtain rfl := Option.some.inj hfirst
        have hmore : frames.length ≠ 1 := Nat.ne_of_gt hlength
        obtain ⟨-, hafter⟩ := first_frame (reached_sane hr) (hrun.taken [] g (f :: later) hearlier)
          fun hone => absurd hone hmore
        refine (hafter hmore).mono fun o ho => ⟨fun _ => ho, fun hlate => absurd ?_ hlate⟩
        intro q hq
        rw [List.mem_singleton.mp hq, Int.sub_self]
        decide
      · obtain ⟨-, hafter⟩ := later_frame (reached_sane hr) hstart
          (hrun.taken past g (f :: later) hearlier) (ih hearlier hstart)
        exact hafter (Nat.ne_of_lt hlength)

/-- Whether an assembly left behind is dead by some time. -/
theorem noLeftover_iff {nowMs : Int} :
    NoLeftover r h nowMs ↔ AssemblyIs h (fun o => ∀ a, o = some a →
      nowMs - a.startedMs > CHUNK_ASSEMBLY_TIMEOUT_MS) r := by
  constructor
  · intro hnone
    refine ⟨?_, fun _ a ha => nomatch ha⟩
    intro s hs hhandle a ha
    have hstale := hnone s hs hhandle
    unfold staleDropped at hstale
    rw [ha] at hstale
    by_contra hlives
    dsimp only at hstale
    rw [if_neg hlives] at hstale
    cases hstale
  · intro hstale s hs hhandle
    unfold staleDropped
    cases ha : s.assembly with
    | none => rfl
    | some a => exact if_pos (hstale.session s hs hhandle a ha)

/-- A message of one piece runs into an assembly that was left behind and is alive. -/
theorem blocked_frame (hr : Sane r) {a : ChunkAssembly} (hne : a.msgId ≠ msgId)
    (hchunk : chunkAt host r (f.event h) = some (.clipEnd, msgId, 0, 1))
    (hlives : f.arrivedMs - a.startedMs ≤ CHUNK_ASSEMBLY_TIMEOUT_MS)
    (hleft : AssemblyIs h (fun o => o = some a) r) (b : Handle) :
    Effect.forward h b f.raw ∉ (step host r (f.event h)).2 := by
  obtain ⟨s, message, chunk, t, hpiece, rfl, htype, rfl, -, -, hassembly⟩ := piece_of_frame hchunk
  have ha := hassembly _ hleft
  have hdropped : staleDropped s f.arrivedMs = some a := by
    unfold staleDropped
    rw [ha]
    exact if_neg (Int.not_lt.mpr hlives)
  have hcurrent : currentAssembly s chunk message.type f.arrivedMs = some a := by
    unfold currentAssembly
    rw [if_neg, hdropped]
    rintro (hfirst | hnone)
    · rw [htype] at hfirst
      cases hfirst
    · rw [hdropped] at hnone
      cases hnone
  exact (hpiece.mismatched hr hcurrent hne).1 b

/-- Which frames of a run go through to another connection. -/
theorem ChunkRun.forwarded_iff (hrun : ChunkRun host r h msgId frames) (hr : Sane r)
    (hfirst : frames.head? = some first) (hsplit : frames = past ++ f :: later)
    (hp : Receives (reached host r h past f) h p) :
    Effect.forward h p.handle f.raw ∈ (step host (reached host r h past f) (f.event h)).2 ↔
      (frames.length = 1 → NoLeftover r h first.arrivedMs) ∧
        InTime first.arrivedMs (past ++ [f]) ∧
        f.env.bufferedAmount p.handle ≤ host.config.backpressureHardBytes := by
  have hchunk := hrun.taken past f later hsplit
  by_cases hpast : past = []
  · subst hpast
    rw [hsplit] at hfirst
    obtain rfl := Option.some.inj hfirst
    have hnow : InTime f.arrivedMs ([] ++ [f]) := by
      intro q hq
      rw [List.mem_singleton.mp hq, Int.sub_self]
      decide
    have hbefore : ∀ {q}, AssemblyIs h q r → AssemblyIs h q (reached host r h [] f) :=
      fun hq => hrun.before hr hsplit hq
    by_cases hfree : frames.length = 1 → NoLeftover r h f.arrivedMs
    · obtain ⟨hforward, -⟩ := first_frame (reached_sane hr) hchunk
        fun hone => hbefore (noLeftover_iff.mp (hfree hone))
      rw [hforward p hp]
      exact ⟨fun hroom => ⟨hfree, hnow, hroom⟩, fun hall => hall.2.2⟩
    · refine iff_of_false ?_ fun hall => hfree hall.1
      rw [Classical.not_imp] at hfree
      obtain ⟨hone, hleft⟩ := hfree
      -- some session of the connection holds the assembly
      obtain ⟨s, hs, hhandle, hlives⟩ : ∃ s ∈ r.sessions, s.handle = h ∧
          staleDropped s f.arrivedMs ≠ none := by
        simpa [NoLeftover] using hleft
      unfold staleDropped at hlives
      cases ha : s.assembly with
      | none =>
          rw [ha] at hlives
          exact absurd rfl hlives
      | some a =>
          rw [ha] at hlives
          have hin : f.arrivedMs - a.startedMs ≤ CHUNK_ASSEMBLY_TIMEOUT_MS := by
            by_contra hlate
            exact hlives (if_pos (Int.not_le.mp hlate))
          have hheld : AssemblyIs h (fun o => o = some a) r := by
            refine ⟨?_, fun hle => ?_⟩
            · intro s' hs' hhandle'
              obtain rfl := hr.numbered.eq_of_handle hs' hs (hhandle'.trans hhandle.symm)
              exact ha
            · exact absurd (hr.numbered.bounded s hs) (Nat.not_lt.mpr (hhandle ▸ hle))
          rw [hone] at hchunk
          exact blocked_frame (reached_sane hr) (hrun.fresh s hs hhandle a ha) hchunk hin
            (hbefore hheld) p.handle
  · have hmore : frames.length ≠ 1 := by
      rw [hsplit, List.length_append, List.length_cons]
      have hlength := List.length_pos_iff.mpr hpast
      omega
    obtain ⟨hforward, -⟩ := later_frame (reached_sane hr) hpast hchunk
      (hrun.progress hr hfirst hsplit hpast)
    rw [hforward p hp]
    exact (and_iff_right fun hone => absurd hone hmore).symm

/-- A whole run of pieces that comes in time goes through to everybody who is not
stalled, unless it is a single piece and an assembly left behind by earlier ones is still alive. -/
theorem chunk_run_iff (host : Host) (start : Int) (earlier : List (Env × Event)) (h : Handle)
    (msgId : String) (frames : List ChunkFrame) (first : ChunkFrame)
    (hrun : ChunkRun host (relayAt host start earlier) h msgId frames)
    (hfirst : frames.head? = some first) (hfast : InTime first.arrivedMs frames)
    (past : List ChunkFrame) (f : ChunkFrame) (later : List ChunkFrame)
    (hsplit : frames = past ++ f :: later) (p : Session)
    (hp : Receives (reached host (relayAt host start earlier) h past f) h p) :
    Effect.forward h p.handle f.raw ∈
        (step host (reached host (relayAt host start earlier) h past f) (f.event h)).2 ↔
      (frames.length = 1 → NoLeftover (relayAt host start earlier) h first.arrivedMs) ∧
        f.env.bufferedAmount p.handle ≤ host.config.backpressureHardBytes := by
  rw [hrun.forwarded_iff (relayAt_sane host start earlier) hfirst hsplit hp]
  have hin : InTime first.arrivedMs (past ++ [f]) := by
    intro g hg
    refine hfast g ?_
    rw [hsplit]
    rcases List.mem_append.mp hg with hmem | hmem
    · exact List.mem_append_left _ hmem
    · rw [List.mem_singleton.mp hmem]
      exact List.mem_append_right past List.mem_cons_self
  exact ⟨fun hall => ⟨hall.1, hall.2.2⟩, fun hall => ⟨hall.1, hin, hall.2⟩⟩

/-- A stream goes through, to everybody who is not stalled, for as long as it stays
within the timeout of its first piece, and no longer, whatever its pace. -/
theorem chunk_stream_iff (host : Host) (start : Int) (earlier : List (Env × Event)) (h : Handle)
    (msgId : String) (frames : List ChunkFrame) (first : ChunkFrame)
    (hrun : ChunkRun host (relayAt host start earlier) h msgId frames)
    (hfirst : frames.head? = some first)
    (past : List ChunkFrame) (f : ChunkFrame) (later : List ChunkFrame)
    (hsplit : frames = past ++ f :: later) (p : Session)
    (hp : Receives (reached host (relayAt host start earlier) h past f) h p) :
    Effect.forward h p.handle f.raw ∈
        (step host (reached host (relayAt host start earlier) h past f) (f.event h)).2 ↔
      (frames.length = 1 → NoLeftover (relayAt host start earlier) h first.arrivedMs) ∧
        InTime first.arrivedMs (past ++ [f]) ∧
        f.env.bufferedAmount p.handle ≤ host.config.backpressureHardBytes :=
  hrun.forwarded_iff (relayAt_sane host start earlier) hfirst hsplit hp

end Through

/-! ### A message cut short, and a slow one -/

/-- What holds at every index of a list holds at every split of it. -/
theorem forall_split {frames : List ChunkFrame} (q : List ChunkFrame → ChunkFrame → Prop)
    (hq : ∀ i ∈ List.range frames.length, ∀ f ∈ frames[i]?, q (frames.take i) f)
    (past : List ChunkFrame) (f : ChunkFrame) (later : List ChunkFrame)
    (hsplit : frames = past ++ f :: later) : q past f := by
  have hlength : past.length < frames.length := by
    rw [hsplit, List.length_append, List.length_cons]
    omega
  have hthere : frames[past.length]? = some f := by
    rw [hsplit, List.getElem?_append_right le_rfl, Nat.sub_self]
    rfl
  have htake : frames.take past.length = past := by
    rw [hsplit, List.take_left]
  have hat := hq past.length (List.mem_range.mpr hlength) f hthere
  rw [htake] at hat
  exact hat

/-- Whether the frames of a connection are for this session. -/
def receives (r : RelayState) (h : Handle) (p : Session) : Bool :=
  p.handle != h && p.isOpen && r.sessions.all fun s => s.handle != h || p.readyIn s.conn.roomId

/-- Whether the frames are a run of pieces, each of them for the connection `b`. -/
def runsTo (host : Host) (r : RelayState) (h b : Handle) (msgId : String)
    (frames : List ChunkFrame) : Prop :=
  (∀ i ∈ List.range frames.length, ∀ f ∈ frames[i]?,
    (chunkAt host (reached host r h (frames.take i) f) (f.event h) =
      some (pieceType (frames.take i).length frames.length, msgId, (frames.take i).length,
        frames.length)) ∧
      ((reached host r h (frames.take i) f).sessions.any fun p =>
        p.handle == b && receives (reached host r h (frames.take i) f) h p) = true) ∧
    (r.sessions.all fun s => s.handle != h || s.assembly.all fun a => a.msgId != msgId) = true

instance (host : Host) (r : RelayState) (h b : Handle) (msgId : String)
    (frames : List ChunkFrame) : Decidable (runsTo host r h b msgId frames) :=
  inferInstanceAs (Decidable (_ ∧ _))

theorem runsTo_sound {b : Handle} {msgId : String} {frames : List ChunkFrame}
    (hruns : runsTo host r h b msgId frames) (hbefore : ∀ f ∈ frames, f.before = []) :
    ChunkRun host r h msgId frames ∧ ∀ past f later, frames = past ++ f :: later →
      ∃ p, p.handle = b ∧ Receives (reached host r h past f) h p := by
  obtain ⟨hall, hfresh⟩ := hruns
  have hsplit := forall_split (fun past f =>
    chunkAt host (reached host r h past f) (f.event h) =
        some (pieceType past.length frames.length, msgId, past.length, frames.length) ∧
      ((reached host r h past f).sessions.any fun p =>
        p.handle == b && receives (reached host r h past f) h p) = true) hall
  refine ⟨⟨fun past f later heq => (hsplit past f later heq).1, ?_, ?_⟩, ?_⟩
  · intro f hf x hx
    rw [hbefore f hf] at hx
    exact absurd hx List.not_mem_nil
  · intro s hs hhandle a ha
    have hs' := List.all_eq_true.mp hfresh s hs
    rw [ha] at hs'
    simpa [hhandle] using hs'
  · intro past f later heq
    obtain ⟨p, hp, hchecks⟩ := List.any_eq_true.mp (hsplit past f later heq).2
    simp only [receives, Bool.and_eq_true, beq_iff_eq, bne_iff_ne, List.all_eq_true,
      Bool.or_eq_true] at hchecks
    obtain ⟨hhandle, ⟨hne, hopen⟩, hready⟩ := hchecks
    refine ⟨p, hhandle, hp, hne, hopen, ?_⟩
    intro s hs hsame
    exact (hready s hs).resolve_left fun hother => hother hsame

namespace TwoDevices

/-- A piece of a chunked message; `id` fills its message id. -/
def chunk (type : String) (id : UInt8) (idx count : Nat) : Json.Members :=
  [("v", Json.ofNat 1), ("type", .str type), ("room", room), ("epoch", Json.ofNat 0),
    ("msg_id", Json.ofBytes (List.replicate 16 id)), ("idx", Json.ofNat idx),
    ("chunk_count", Json.ofNat count), ("n", Json.ofBytes (List.replicate 24 0)),
    ("ct", Json.ofBytes (List.replicate 17 0))]

/-- A frame at some time, with nothing before it. -/
def frameAt (now : Int) (members : Json.Members) : ChunkFrame :=
  { before := [], env := TwoDevices.env now, raw := text members }

def chunks : Host :=
  relay [chunk "clip_begin" 1 0 2, chunk "clip_end" 2 0 1, chunk "clip_begin" 3 0 3,
    chunk "clip_chunk" 3 1 3, chunk "clip_end" 3 2 3]

/-- The first device begins a message of two pieces and does not go on. -/
def abandoned : List (Env × Event) :=
  joined ++ [tells 1 0 (chunk "clip_begin" 1 0 2)]

/-- Then it sends a message of one piece. -/
def single : List ChunkFrame :=
  [frameAt 2 (chunk "clip_end" 2 0 1)]

def beginAt (now : Int) : ChunkFrame :=
  frameAt now (chunk "clip_begin" 3 0 3)

def middleAt (now : Int) : ChunkFrame :=
  frameAt now (chunk "clip_chunk" 3 1 3)

def endAt (now : Int) : ChunkFrame :=
  frameAt now (chunk "clip_end" 3 2 3)

/-- A message of three pieces, at these times. -/
def stream (first second third : Int) : List ChunkFrame :=
  [beginAt first, middleAt second, endAt third]

def idText (id : UInt8) : String :=
  Base64.encode (List.replicate 16 id)

/-- Both messages are runs of pieces for the second device, and an assembly was left behind. -/
theorem abandoned_runs :
    runsTo chunks (relayAt chunks 0 abandoned) 0 1 (idText 2) single ∧
      ((relayAt chunks 0 abandoned).sessions.any fun s =>
        s.handle == 0 && (staleDropped s 2).isSome) = true ∧
      runsTo chunks (relayAt chunks 0 abandoned) 0 1 (idText 3) (stream 2 3 4) := by
  decide +kernel

/-- The single piece is refused, though nothing else is wrong with it. -/
theorem single_piece_lost : ¬ ∀ (host : Host) (start : Int) (earlier : List (Env × Event))
    (h : Handle) (msgId : String) (frames : List ChunkFrame) (first : ChunkFrame),
    ChunkRun host (relayAt host start earlier) h msgId frames → frames.head? = some first →
      InTime first.arrivedMs frames →
        ∀ past f later, frames = past ++ f :: later → ∀ p,
          Receives (reached host (relayAt host start earlier) h past f) h p →
            f.env.bufferedAmount p.handle ≤ host.config.backpressureHardBytes →
              Effect.forward h p.handle f.raw ∈
                (step host (reached host (relayAt host start earlier) h past f) (f.event h)).2 := by
  intro hclaim
  obtain ⟨hruns, hleft, -⟩ := abandoned_runs
  obtain ⟨hrun, hreceives⟩ := runsTo_sound hruns (by simp [single, frameAt])
  obtain ⟨p, -, hp⟩ := hreceives [] (frameAt 2 (chunk "clip_end" 2 0 1)) [] rfl
  have hforward := hclaim chunks 0 abandoned 0 (idText 2) single _ hrun rfl
    (by simp [single, InTime, CHUNK_ASSEMBLY_TIMEOUT_MS]) [] _ [] rfl p hp (Nat.zero_le _)
  rw [hrun.forwarded_iff (relayAt_sane chunks 0 abandoned) rfl rfl hp] at hforward
  obtain ⟨s, hs, hchecks⟩ := List.any_eq_true.mp hleft
  rw [Bool.and_eq_true, beq_iff_eq] at hchecks
  have hnone := hforward.1 rfl s hs hchecks.1
  have hstale : staleDropped s 2 = none := hnone
  rw [hstale] at hchecks
  exact absurd hchecks.2 (by decide)

/-- A message of three pieces gets past what was left behind. -/
theorem three_pieces_pass : Effect.forward 0 1 (endAt 4).raw ∈
    (step chunks (reached chunks (relayAt chunks 0 abandoned) 0
      [beginAt 2, middleAt 3]
      (endAt 4))
      ((endAt 4).event 0)).2 := by
  obtain ⟨hrun, hreceives⟩ :=
    runsTo_sound abandoned_runs.2.2 (by simp [stream, beginAt, middleAt, endAt, frameAt])
  obtain ⟨p, hhandle, hp⟩ := hreceives
    [beginAt 2, middleAt 3]
    (endAt 4) [] rfl
  have hfast : InTime (beginAt 2).arrivedMs (stream 2 3 4) := by
    intro f hf
    simp only [stream, List.mem_cons, List.not_mem_nil, or_false] at hf
    rcases hf with rfl | rfl | rfl
    · decide
    · decide
    · decide
  have hiff := chunk_run_iff chunks 0 abandoned 0 (idText 3) (stream 2 3 4) (beginAt 2) hrun rfl
    hfast [beginAt 2, middleAt 3] (endAt 4) [] rfl p hp
  rw [hhandle] at hiff
  exact hiff.mpr ⟨fun hone => (nomatch hone), Nat.zero_le _⟩

theorem slow_runs :
    runsTo chunks (relayAt chunks 0 joined) 0 1 (idText 3) (stream 0 20000 40000) := by
  decide +kernel

/-- The second piece of a slow message still comes in time. -/
theorem second_piece_passes : Effect.forward 0 1 (middleAt 20000).raw ∈
    (step chunks (reached chunks (relayAt chunks 0 joined) 0
      [beginAt 0] (middleAt 20000))
      ((middleAt 20000).event 0)).2 := by
  obtain ⟨hrun, hreceives⟩ :=
    runsTo_sound slow_runs (by simp [stream, beginAt, middleAt, endAt, frameAt])
  obtain ⟨p, hhandle, hp⟩ := hreceives [beginAt 0]
    (middleAt 20000) [endAt 40000] rfl
  have hintime : InTime (beginAt 0).arrivedMs ([beginAt 0] ++ [middleAt 20000]) := by
    intro f hf
    simp only [List.cons_append, List.nil_append, List.mem_cons, List.not_mem_nil, or_false] at hf
    rcases hf with rfl | rfl
    · decide
    · decide
  have hiff := chunk_stream_iff chunks 0 joined 0 (idText 3) (stream 0 20000 40000) (beginAt 0) hrun
    rfl [beginAt 0] (middleAt 20000) [endAt 40000] rfl p hp
  rw [hhandle] at hiff
  exact hiff.mpr ⟨fun hone => (nomatch hone), hintime, Nat.zero_le _⟩

/-- No two frames that follow each other are further apart than the timeout. -/
def KeepsMoving (frames : List ChunkFrame) : Prop :=
  ∀ past f g later, frames = past ++ f :: g :: later →
    g.arrivedMs - f.arrivedMs ≤ CHUNK_ASSEMBLY_TIMEOUT_MS

theorem stream_moves : KeepsMoving (stream 0 20000 40000) := by
  intro past f g later hsplit
  rcases past with _ | ⟨first, _ | ⟨second, past⟩⟩
  · simp only [stream, List.nil_append, List.cons.injEq] at hsplit
    obtain ⟨rfl, rfl, -⟩ := hsplit
    decide
  · simp only [stream, List.cons_append, List.nil_append, List.cons.injEq] at hsplit
    obtain ⟨-, rfl, rfl, -⟩ := hsplit
    decide
  · have hlength := congrArg List.length hsplit
    simp only [stream, List.length_cons, List.length_append, List.length_nil] at hlength
    omega

/-- The third piece comes 20 seconds after the second and is refused. -/
theorem slow_stream_lost : ¬ ∀ (host : Host) (start : Int) (earlier : List (Env × Event))
    (h : Handle) (msgId : String) (frames : List ChunkFrame) (first : ChunkFrame),
    ChunkRun host (relayAt host start earlier) h msgId frames → frames.head? = some first →
      KeepsMoving frames →
        ∀ past f later, frames = past ++ f :: later → ∀ p,
          Receives (reached host (relayAt host start earlier) h past f) h p →
            f.env.bufferedAmount p.handle ≤ host.config.backpressureHardBytes →
              Effect.forward h p.handle f.raw ∈
                (step host (reached host (relayAt host start earlier) h past f) (f.event h)).2 := by
  intro hclaim
  obtain ⟨hrun, hreceives⟩ :=
    runsTo_sound slow_runs (by simp [stream, beginAt, middleAt, endAt, frameAt])
  obtain ⟨p, -, hp⟩ := hreceives
    [beginAt 0, middleAt 20000]
    (endAt 40000) [] rfl
  have hforward := hclaim chunks 0 joined 0 (idText 3) (stream 0 20000 40000) _ hrun rfl
    stream_moves [beginAt 0, middleAt 20000]
    (endAt 40000) [] rfl p hp (Nat.zero_le _)
  rw [hrun.forwarded_iff (relayAt_sane chunks 0 joined) rfl rfl hp] at hforward
  have hlate := hforward.2.1 (endAt 40000) (by simp)
  exact absurd hlate (by decide)

end TwoDevices

end Relay
end Asli
