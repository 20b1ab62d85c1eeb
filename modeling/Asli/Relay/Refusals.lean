import Asli.Relay.Buckets
import Asli.Relay.ChunkRuns

/-!
# Refusals — what a refused frame costs

A frame draws on two buckets and a bulk frame on two daily budgets, one after the other.  The
first is spent before the second is asked, and nothing is put back when the second refuses, so a
refusal is free exactly when it is the first that refuses.
-/

namespace Asli
namespace Relay

open Logic Crypto

/-! ## The buckets of a connection -/

namespace Session

/-- The bucket of `onMessage` that counts frames. -/
def frameBucket (transfer : Bool) (s : Session) : TokenBucket :=
  if transfer then s.transferMsgBucket else s.msgBucket

/-- The bucket of `onMessage` that counts bytes. -/
def bytesBucket (transfer : Bool) (s : Session) : TokenBucket :=
  if transfer then s.transferByteBucket else s.byteBucket

end Session

section Tokens

variable (transfer : Bool) (bytes : Nat) (now : Int) (s : Session)

theorem takeTokens_fst :
    (takeTokens transfer bytes now s).1 =
      (((s.frameBucket transfer).take 1 now).1 && ((s.bytesBucket transfer).take bytes now).1) := by
  cases transfer <;> unfold takeTokens <;> dsimp only [Session.frameBucket, Session.bytesBucket]
  case false =>
    cases hframe : (s.msgBucket.take 1 now).1 <;> simp [hframe]
  case true =>
    cases hframe : (s.transferMsgBucket.take 1 now).1 <;> simp [hframe]

theorem takeTokens_frame :
    ((takeTokens transfer bytes now s).2).frameBucket transfer =
      ((s.frameBucket transfer).take 1 now).2 := by
  cases transfer <;> unfold takeTokens <;> dsimp only [Session.frameBucket]
  case false => cases (s.msgBucket.take 1 now).1 <;> simp
  case true => cases (s.transferMsgBucket.take 1 now).1 <;> simp

/-- The second bucket is asked only once the first has granted. -/
theorem takeTokens_bytes :
    ((takeTokens transfer bytes now s).2).bytesBucket transfer =
      if ((s.frameBucket transfer).take 1 now).1 then ((s.bytesBucket transfer).take bytes now).2
      else s.bytesBucket transfer := by
  cases transfer <;> unfold takeTokens <;> dsimp only [Session.frameBucket, Session.bytesBucket]
  case false =>
    cases hframe : (s.msgBucket.take 1 now).1 <;> simp [hframe]
  case true =>
    cases hframe : (s.transferMsgBucket.take 1 now).1 <;> simp [hframe]

theorem strike_hint :
    (strike transfer now s).1 = ((s.frameBucket transfer).retryAfterMs 1 now).1 := by
  cases transfer <;> rfl

theorem strike_frame :
    ((strike transfer now s).2).frameBucket transfer = (s.frameBucket transfer).refill now := by
  cases transfer <;> simp [strike, Session.frameBucket]

theorem strike_bytes :
    ((strike transfer now s).2).bytesBucket transfer = s.bytesBucket transfer := by
  cases transfer <;> rfl

end Tokens

/-! ## The session of a connection after an event -/

/-- The session of a connection. -/
def sessionOf (r : RelayState) (h : Handle) : Option Session :=
  r.sessions.find? fun s => s.handle == h

theorem sessionOf_handle {r : RelayState} {h : Handle} {s : Session}
    (hs : sessionOf r h = some s) : s.handle = h :=
  beq_iff_eq.mp (List.find?_some hs :)

/-- A change of a session that keeps its number is seen when the session is looked up. -/
theorem sessionOf_update (t : Turn) (h : Handle) {f : Session → Session}
    (hf : ∀ s, (f s).handle = s.handle) :
    sessionOf (t.update h f).relay h = (sessionOf t.relay h).map f := by
  obtain ⟨relay, out⟩ := t
  unfold sessionOf Turn.update
  dsimp only
  induction relay.sessions with
  | nil => rfl
  | cons p sessions ih =>
      by_cases hp : p.handle = h
      · simp only [List.map_cons, List.find?_cons, hp, if_true, hf, beq_self_eq_true,
          Option.map_some]
      · have hne : (p.handle == h) = false := beq_eq_false_iff_ne.mpr hp
        simp only [List.map_cons, List.find?_cons, if_neg hp, hne]
        exact ih

/-- A close changes nothing of a session but that it is open. -/
theorem sessionOf_wsClose (t : Turn) (h : Handle) (code : Nat) (reason : String) {s : Session}
    (hs : sessionOf t.relay h = some s) :
    ∃ isOpen, sessionOf (t.wsClose h code reason).relay h = some { s with isOpen := isOpen } := by
  unfold Turn.wsClose
  split
  · refine ⟨false, ?_⟩
    have hupdate := sessionOf_update t h (f := fun s => { s with isOpen := false }) fun _ => rfl
    rw [hs] at hupdate
    exact hupdate
  · exact ⟨s.isOpen, hs⟩

theorem sendError_relay (t : Turn) (h : Handle) (code message : String) (retry : Option Int) :
    (t.sendError h code message retry).relay = t.relay :=
  wsSend_relay t h _

/-! ## A frame refused for its rate -/

/-- Whether a frame of a session is counted as bulk. -/
def isTransfer (s : Session) (raw : String) : Bool :=
  decide (s.state = .ready) && looksLikeMsg raw

/-- The session whose frame an event refuses for its rate, as it was, with the frame. -/
def refusedForRate (r : RelayState) (x : Env × Event) : Option (Session × String) :=
  match x.2 with
  | .message h (.text raw) =>
      match sessionOf r h with
      | none => none
      | some s =>
          let taken := takeTokens (isTransfer s raw) raw.utf8ByteSize (x.1.now .dispatch) s
          if s.isOpen = true ∧ taken.1 = false then some (s, raw) else none
  | _ => none

section Refused

variable {host : Host} {r : RelayState} {x : Env × Event} {s : Session} {raw : String}

theorem refusedForRate_spec (h : refusedForRate r x = some (s, raw)) :
    x.2 = .message s.handle (.text raw) ∧ sessionOf r s.handle = some s ∧ s.isOpen = true ∧
      (takeTokens (isTransfer s raw) raw.utf8ByteSize (x.1.now .dispatch) s).1 = false := by
  obtain ⟨env, e⟩ := x
  unfold refusedForRate at h
  split at h
  next k text hevent =>
    dsimp only at hevent
    subst hevent
    split at h
    · cases h
    next s₀ hfound =>
      dsimp only at h
      split at h
      next hrefused =>
        cases h
        have hhandle := sessionOf_handle hfound
        subst hhandle
        exact ⟨rfl, hfound, hrefused.1, hrefused.2⟩
      next => cases h
  next => cases h

/-- The turn in which the tokens of a refused frame have been asked for. -/
def asked (r : RelayState) (env : Env) (s : Session) (raw : String) : Turn :=
  ({ relay := r, out := [] } : Turn).update s.handle fun p =>
    (takeTokens (isTransfer s raw) raw.utf8ByteSize (env.now .dispatch) p).2

theorem sessionOf_asked {env : Env} (hfound : sessionOf r s.handle = some s) :
    sessionOf (asked r env s raw).relay s.handle =
      some (takeTokens (isTransfer s raw) raw.utf8ByteSize (env.now .dispatch) s).2 := by
  unfold asked
  rw [sessionOf_update _ _ fun p => congrArg Connection.handle (Doing.takeTokens _ _ _ p).conn,
    hfound]
  rfl

/-- Such a frame goes no further than the rate limits. -/
theorem handle_refused (h : refusedForRate r x = some (s, raw)) :
    handle host x.1 x.2 { relay := r, out := [] } =
      rateLimited (isTransfer s raw) (x.1.now .dispatch)
        (takeTokens (isTransfer s raw) raw.utf8ByteSize (x.1.now .dispatch) s).2
        (asked r x.1 s raw) := by
  obtain ⟨env, e⟩ := x
  obtain ⟨hevent, hfound, hopen, hrefused⟩ := refusedForRate_spec h
  dsimp only at hevent hrefused
  subst hevent
  have hsession : ({ relay := r, out := [] } : Turn).session? s.handle = some s := hfound
  unfold isTransfer at hrefused
  unfold asked isTransfer
  simp only [handle, onMessage, hsession, hopen, hrefused, Bool.not_true, Bool.not_false,
    Bool.false_eq_true, if_false, if_true]

/-- The session of a refused frame afterwards: asked, struck, and perhaps closed. -/
theorem session_refused (host : Host) (h : refusedForRate r x = some (s, raw)) :
    ∃ isOpen, sessionOf (step host r x).1 s.handle =
      some { (strike (isTransfer s raw) (x.1.now .dispatch)
        (takeTokens (isTransfer s raw) raw.utf8ByteSize (x.1.now .dispatch) s).2).2 with
          isOpen := isOpen } := by
  have hfound := (refusedForRate_spec h).2.1
  change ∃ isOpen, sessionOf (handle host x.1 x.2 { relay := r, out := [] }).relay s.handle = _
  rw [handle_refused h]
  generalize htransfer : isTransfer s raw = transfer
  generalize hnow : x.1.now .dispatch = now
  generalize htaken : (takeTokens transfer raw.utf8ByteSize now s).2 = taken
  have hinert := Doing.takeTokens transfer raw.utf8ByteSize now
  have hhandle : taken.handle = s.handle := htaken ▸ congrArg Connection.handle (hinert s).conn
  -- the session has its tokens taken, then its strike counted
  have hasked : sessionOf (asked r x.1 s raw).relay s.handle = some taken := by
    rw [sessionOf_asked hfound, htransfer, hnow, htaken]
  have hstruck : sessionOf ((asked r x.1 s raw).update s.handle fun p =>
      (strike transfer now p).2).relay s.handle = some (strike transfer now taken).2 := by
    rw [sessionOf_update _ _ fun p => congrArg Connection.handle (Doing.strike transfer now p).conn,
      hasked]
    rfl
  unfold rateLimited
  dsimp only
  rw [hhandle]
  split
  · exact sessionOf_wsClose _ _ _ _ hstruck
  · refine ⟨(strike transfer now taken).2.isOpen, ?_⟩
    rw [sendError_relay]
    exact hstruck

/-- The buckets of a refused frame afterwards: the frame is counted, or refused, and the
bytes are asked for only when it is counted. -/
theorem buckets_refused (host : Host) (h : refusedForRate r x = some (s, raw)) :
    ∃ s', sessionOf (step host r x).1 s.handle = some s' ∧ s'.state = s.state ∧
      s'.frameBucket (isTransfer s raw) =
        ((s.frameBucket (isTransfer s raw)).take 1 (x.1.now .dispatch)).2 ∧
      s'.bytesBucket (isTransfer s raw) =
        if ((s.frameBucket (isTransfer s raw)).take 1 (x.1.now .dispatch)).1
        then ((s.bytesBucket (isTransfer s raw)).take raw.utf8ByteSize (x.1.now .dispatch)).2
        else s.bytesBucket (isTransfer s raw) := by
  obtain ⟨isOpen, hs'⟩ := session_refused host h
  refine ⟨_, hs', ?_, ?_, ?_⟩
  · exact (Doing.strike _ _ _).state.trans (Doing.takeTokens _ _ _ _).state
  · exact (strike_frame _ _ _).trans
      (by rw [takeTokens_frame, TokenBucket.take_lastRefill_refill])
  · exact (strike_bytes _ _ _).trans (takeTokens_bytes _ _ _ _)

end Refused

/-- Apart from what time gives, both buckets hold what they held. -/
def SameTokens (transfer : Bool) (now : Int) (s s' : Session) : Prop :=
  (s'.frameBucket transfer).refill now = (s.frameBucket transfer).refill now ∧
    (s'.bytesBucket transfer).refill now = (s.bytesBucket transfer).refill now

/-- A frame refused for its rate is free exactly when it is the frame that is one too many. -/
theorem refused_tokens (host : Host) {r : RelayState} {x : Env × Event} {s : Session}
    {raw : String} (h : refusedForRate r x = some (s, raw)) :
    ∃ s', sessionOf (step host r x).1 s.handle = some s' ∧
      (SameTokens (isTransfer s raw) (x.1.now .dispatch) s s' ↔
        ((s.frameBucket (isTransfer s raw)).refill (x.1.now .dispatch)).tokens < 1) := by
  obtain ⟨s', hs', -, hframe, hbytes⟩ := buckets_refused host h
  have htaken := (refusedForRate_spec h).2.2.2
  refine ⟨s', hs', ?_⟩
  rw [takeTokens_fst] at htaken
  unfold SameTokens
  rw [hframe, hbytes, TokenBucket.take_lastRefill_refill]
  generalize s.frameBucket (isTransfer s raw) = frame at *
  generalize s.bytesBucket (isTransfer s raw) = bytes at *
  generalize x.1.now .dispatch = now at *
  cases hcounted : (frame.take 1 now).1 with
  | false =>
      have hshort : (frame.refill now).tokens < 1 := by
        rw [TokenBucket.take_fst] at hcounted
        exact not_le.mp (of_decide_eq_false hcounted)
      rw [TokenBucket.take_refused frame 1 now hcounted]
      exact iff_of_true ⟨rfl, rfl⟩ hshort
  | true =>
      -- the bytes were refused after the frame had been counted
      have henough : ¬ (frame.refill now).tokens < 1 := by
        rw [TokenBucket.take_fst] at hcounted
        exact not_lt.mpr (of_decide_eq_true hcounted)
      refine iff_of_false ?_ henough
      rintro ⟨hsame, -⟩
      have htokens := congrArg TokenBucket.tokens hsame
      rw [TokenBucket.take_granted frame 1 now hcounted] at htokens
      dsimp only at htokens
      linarith

/-! ## A bulk frame refused for a daily budget -/

/-- The budget of a room for bulk frames; a room that has none yet gets a fresh one. -/
def roomBudget (host : Host) (r : RelayState) (roomId : String) (now : Int) : RollingQuota :=
  (r.roomTransferQuotas.lookup roomId).getD
    (RollingQuota.new host.config.roomTransferBytesPerDay DAY_MS now)

/-- The peers that `handleMsg` sends a message to. -/
def addressed (s : Session) (fields : MsgFields) (t : Turn) : List Session :=
  (recipients s t).filter fun peer =>
    match fields.to_ with
    | none => true
    | some id => peer.conn.id == id

/-- Whether `handleChunk` gets as far as charging a chunk. -/
def chunkCharged (host : Host) (env : Env) (s : Session) (message : Envelope) : Bool :=
  match validateChunk message host.config.maxFrameBytes with
  | none => false
  | some chunk =>
      if roomKeyOf chunk.roomText ≠ some s.conn.roomId then false
      else
        match currentAssembly s chunk message.type (env.now .handler) with
        | none => false
        | some a => decide (a.msgId = chunk.msgIdText ∧ a.chunkCount = chunk.chunkCount)

/-- The bytes that `handleMsg` charges a message for. -/
def msgCharged (host : Host) (s : Session) (raw : String) (message : Envelope) (t : Turn) :
    Option Nat :=
  match validateMsg message host.config.maxFrameBytes with
  | none => none
  | some fields =>
      if roomKeyOf fields.roomText ≠ some s.conn.roomId then none
      else some (raw.utf8ByteSize * max 1 (addressed s fields t).length)

/-- The connection whose frame an event charges to the daily budgets, and for how many bytes. -/
def bulkCharge (host : Host) (r : RelayState) (x : Env × Event) : Option (Session × Nat) :=
  match heard host r x with
  | none => none
  | some (s, raw, message) =>
      if CHUNK_TYPES.contains message.type then
        if chunkCharged host x.1 s message then some (s, raw.utf8ByteSize) else none
      else if message.type = .msg then
        (msgCharged host s raw message { relay := r, out := [] }).map fun bytes => (s, bytes)
      else none

/-- Two states with the same daily budgets for bulk frames. -/
def SameBudgets (r r' : RelayState) : Prop :=
  r'.roomTransferQuotas = r.roomTransferQuotas ∧ r'.globalTransferQuota = r.globalTransferQuota

section Charge

variable {host : Host} {env : Env} {s : Session} {raw : String} {message : Envelope} {t : Turn}

/-- A chunk whose charge is refused leaves the budgets as the charge leaves them. -/
theorem handleChunk_refused (hcharged : chunkCharged host env s message = true)
    (hrefused : (chargeBulk host env s raw.utf8ByteSize t).1 = false) :
    SameBudgets (chargeBulk host env s raw.utf8ByteSize t).2.relay
      (handleChunk host env s raw message t).relay := by
  unfold chunkCharged at hcharged
  unfold handleChunk
  cases hvalid : validateChunk message host.config.maxFrameBytes with
  | none =>
      rw [hvalid] at hcharged
      cases hcharged
  | some chunk =>
      rw [hvalid] at hcharged
      dsimp only at hcharged ⊢
      by_cases hroom : roomKeyOf chunk.roomText ≠ some s.conn.roomId
      · rw [if_pos hroom] at hcharged
        cases hcharged
      rw [if_neg hroom] at hcharged ⊢
      cases hassembly : currentAssembly s chunk message.type (env.now .handler) with
      | none =>
          rw [hassembly] at hcharged
          cases hcharged
      | some a =>
          rw [hassembly] at hcharged
          dsimp only at hcharged ⊢
          have hbelongs := of_decide_eq_true hcharged
          rw [if_neg (by simp [hbelongs.1, hbelongs.2])]
          simp only [hrefused, Bool.not_false, if_true]
          exact ⟨rfl, rfl⟩

theorem handleMsg_refused {bytes : Nat} (hcharged : msgCharged host s raw message t = some bytes)
    (hrefused : (chargeBulk host env s bytes t).1 = false) :
    SameBudgets (chargeBulk host env s bytes t).2.relay
      (handleMsg host env s raw message t).relay := by
  unfold msgCharged at hcharged
  unfold handleMsg
  cases hvalid : validateMsg message host.config.maxFrameBytes with
  | none =>
      rw [hvalid] at hcharged
      cases hcharged
  | some fields =>
      rw [hvalid] at hcharged
      dsimp only at hcharged ⊢
      by_cases hroom : roomKeyOf fields.roomText ≠ some s.conn.roomId
      · rw [if_pos hroom] at hcharged
        cases hcharged
      rw [if_neg hroom] at hcharged ⊢
      cases hcharged
      change SameBudgets _ (ite ((!(chargeBulk host env s
        (raw.utf8ByteSize * max 1 (addressed s fields t).length) t).1) = true)
          (chargeBulk host env s (raw.utf8ByteSize * max 1 (addressed s fields t).length) t).2
          _).relay
      rw [hrefused, Bool.not_false, if_pos rfl]
      exact ⟨rfl, rfl⟩

theorem handleReady_chunk (htype : message.type ∈ CHUNK_TYPES) :
    handleReady host env s raw message t = handleChunk host env s raw message t := by
  unfold CHUNK_TYPES at htype
  unfold handleReady
  simp only [List.mem_cons, List.not_mem_nil, or_false] at htype
  rcases htype with h | h | h <;> rw [h]

theorem handleReady_msg (htype : message.type = .msg) :
    handleReady host env s raw message t = handleMsg host env s raw message t := by
  unfold handleReady
  rw [htype]

/-- The tokens of a frame change nothing for those it is sent to. -/
theorem recipients_update {g : Session → Session} (hg : ∀ p, (g p).handle = p.handle) :
    recipients s (t.update s.handle g) = recipients s t := by
  unfold recipients Turn.update
  dsimp only
  induction t.relay.sessions with
  | nil => rfl
  | cons p sessions ih =>
      by_cases hp : p.handle = s.handle
      · simp only [List.map_cons, List.filter_cons, hp, if_true, hg, bne_self_eq_false,
          Bool.false_and, Bool.false_eq_true, if_false]
        exact ih
      · simp only [List.map_cons, List.filter_cons, if_neg hp]
        rw [ih]

/-- What a refused charge leaves: the room's budget is charged unless it is the one that refuses,
and the relay's budget is never charged. -/
theorem chargeBulk_refused {bytes : Nat} (hrefused : (chargeBulk host env s bytes t).1 = false) :
    roomBudget host (chargeBulk host env s bytes t).2.relay s.conn.roomId (env.now .charge) =
        ((roomBudget host t.relay s.conn.roomId (env.now .charge)).charge bytes
          (env.now .charge)).2 ∧
      (chargeBulk host env s bytes t).2.relay.globalTransferQuota.rollIfNeeded (env.now .charge) =
        t.relay.globalTransferQuota.rollIfNeeded (env.now .charge) := by
  unfold chargeBulk at hrefused ⊢
  unfold roomBudget
  dsimp only at hrefused ⊢
  generalize env.now .charge = now at *
  generalize hquota : (t.relay.roomTransferQuotas.lookup s.conn.roomId).getD
    (RollingQuota.new host.config.roomTransferBytesPerDay DAY_MS now) = quota at *
  split at hrefused
  next hroom =>
    have hshort : (quota.charge bytes now).1 = false := by simpa using hroom
    rw [if_pos hroom, sendError_relay]
    refine ⟨?_, rfl⟩
    change ((setEntry _ _ _).lookup _).getD _ = _
    rw [lookup_setEntry, if_pos rfl, Option.getD_some, RollingQuota.retryAfterMs_snd,
      quota.charge_refused bytes now hshort, RollingQuota.rollIfNeeded_rollIfNeeded]
  next hroom =>
    rw [if_neg hroom]
    split at hrefused
    next hglobal =>
      have hshort : (t.relay.globalTransferQuota.charge bytes now).1 = false :=
        (Bool.not_eq_true' _).mp hglobal
      rw [if_pos hglobal, sendError_relay]
      constructor
      · -- the room has been charged by now
        change ((setEntry _ _ _).lookup _).getD _ = _
        rw [lookup_setEntry, if_pos rfl, Option.getD_some]
      · change ((t.relay.globalTransferQuota.charge bytes now).2.rollIfNeeded now).rollIfNeeded now
          = _
        rw [t.relay.globalTransferQuota.charge_refused bytes now hshort,
          RollingQuota.rollIfNeeded_rollIfNeeded, RollingQuota.rollIfNeeded_rollIfNeeded]
    next => cases hrefused

end Charge

/-- Apart from a window that has passed, both daily budgets hold what they held.  The room's is
always asked, so its window has been looked at. -/
def SameRoomBudgets (host : Host) (roomId : String) (now : Int) (r r' : RelayState) : Prop :=
  roomBudget host r' roomId now = (roomBudget host r roomId now).rollIfNeeded now ∧
    r'.globalTransferQuota.rollIfNeeded now = r.globalTransferQuota.rollIfNeeded now

section Step

variable {host : Host} {r : RelayState} {x : Env × Event} {s : Session} {bytes : Nat}

/-- A bulk charge is made on the budgets as the event found them, and when it is refused
nothing else touches them. -/
theorem bulkCharge_refused (h : bulkCharge host r x = some (s, bytes))
    (hrefused : (chargeBulk host x.1 s bytes { relay := r, out := [] }).1 = false) :
    ∃ t : Turn, SameBudgets r t.relay ∧ (chargeBulk host x.1 s bytes t).1 = false ∧
      SameBudgets (chargeBulk host x.1 s bytes t).2.relay (step host r x).1 := by
  unfold bulkCharge at h
  split at h
  · cases h
  next s₀ raw message hheard =>
    obtain ⟨t, hears⟩ := handle_heard hheard
    obtain ⟨g, hturn, hinert⟩ := hears.turn
    have hbudgets : SameBudgets r t.relay := by
      rw [hturn]
      exact ⟨rfl, rfl⟩
    have hsame : ∀ n, (chargeBulk host x.1 s₀ n t).1 =
        (chargeBulk host x.1 s₀ n { relay := r, out := [] }).1 := by
      intro n
      rw [chargeBulk_granted, chargeBulk_granted, hbudgets.1, hbudgets.2]
    have hstep : (step host r x).1 = (handleReady host x.1 s₀ raw message t).relay :=
      congrArg Turn.relay hears.handled
    rw [hstep]
    split at h
    next hchunk =>
      have htype : message.type ∈ CHUNK_TYPES := List.elem_iff.mp hchunk
      split at h
      next hcharged =>
        cases h
        refine ⟨t, hbudgets, (hsame _).trans hrefused, ?_⟩
        rw [handleReady_chunk htype]
        exact handleChunk_refused hcharged ((hsame _).trans hrefused)
      next => cases h
    next =>
      split at h
      next hmsg =>
        obtain ⟨n, hcharged, hpair⟩ := Option.map_eq_some_iff.mp h
        cases hpair
        have hpeers : msgCharged host s raw message t = some bytes := by
          have haddressed : ∀ fields, addressed s fields t =
              addressed s fields { relay := r, out := [] } := by
            intro fields
            unfold addressed
            rw [hturn, recipients_update fun p => congrArg Connection.handle (hinert p).conn]
          unfold msgCharged at hcharged ⊢
          simpa only [haddressed] using hcharged
        refine ⟨t, hbudgets, (hsame _).trans hrefused, ?_⟩
        rw [handleReady_msg hmsg]
        exact handleMsg_refused hpeers ((hsame _).trans hrefused)
      next => cases h

/-- A bulk frame refused for a daily budget is free exactly when it is the room's budget that
refuses, or the frame counts no bytes. -/
theorem refused_budgets (h : bulkCharge host r x = some (s, bytes))
    (hrefused : (chargeBulk host x.1 s bytes { relay := r, out := [] }).1 = false) :
    SameRoomBudgets host s.conn.roomId (x.1.now .charge) r (step host r x).1 ↔
      (roomBudget host r s.conn.roomId (x.1.now .charge)).limit <
          ((roomBudget host r s.conn.roomId (x.1.now .charge)).rollIfNeeded
            (x.1.now .charge)).used + bytes ∨
        bytes = 0 := by
  obtain ⟨t, hbudgets, hrefused', hafter⟩ := bulkCharge_refused h hrefused
  obtain ⟨hroom, hglobal⟩ := chargeBulk_refused hrefused'
  have hbefore : roomBudget host t.relay s.conn.roomId (x.1.now .charge) =
      roomBudget host r s.conn.roomId (x.1.now .charge) := by
    unfold roomBudget
    rw [hbudgets.1]
  have hkept : roomBudget host (step host r x).1 s.conn.roomId (x.1.now .charge) =
      roomBudget host (chargeBulk host x.1 s bytes t).2.relay s.conn.roomId (x.1.now .charge) := by
    unfold roomBudget
    rw [hafter.1]
  have hrelay : (step host r x).1.globalTransferQuota.rollIfNeeded (x.1.now .charge) =
      r.globalTransferQuota.rollIfNeeded (x.1.now .charge) := by
    rw [hafter.2, hglobal, hbudgets.2]
  unfold SameRoomBudgets
  rw [hkept, hroom, hbefore]
  generalize x.1.now .charge = now at *
  generalize roomBudget host r s.conn.roomId now = quota at *
  cases hcharged : (quota.charge bytes now).1 with
  | false =>
      rw [RollingQuota.charge_fst] at hcharged
      have hfull := of_decide_eq_false hcharged
      rw [← RollingQuota.charge_fst] at hcharged
      rw [quota.charge_refused bytes now hcharged]
      exact iff_of_true ⟨rfl, hrelay⟩ (Or.inl (Nat.lt_of_not_le hfull))
  | true =>
      -- the room has been charged, and only then the relay refuses
      rw [RollingQuota.charge_fst] at hcharged
      have hfits := of_decide_eq_true hcharged
      rw [← RollingQuota.charge_fst] at hcharged
      rw [quota.charge_accepted bytes now hcharged]
      constructor
      · rintro ⟨hsame, -⟩
        have hused := congrArg RollingQuota.used hsame
        dsimp only at hused
        exact Or.inr (by omega)
      · rintro (hfull | hnone)
        · exact absurd hfits (Nat.not_le.mpr hfull)
        · subst hnone
          exact ⟨rfl, hrelay⟩

end Step

/-! ## When a refusal is free -/

/-- A frame refused for its rate leaves both of its buckets as they were if and only if it is one
frame too many, and a bulk frame refused for a daily budget leaves both budgets as they were if and
only if the room's has run out or the frame counts no bytes. -/
theorem refusal_free_iff (host : Host) (r : RelayState) (x : Env × Event) :
    (∀ s raw, refusedForRate r x = some (s, raw) →
      ∃ s', sessionOf (step host r x).1 s.handle = some s' ∧
        (SameTokens (isTransfer s raw) (x.1.now .dispatch) s s' ↔
          ((s.frameBucket (isTransfer s raw)).refill (x.1.now .dispatch)).tokens < 1)) ∧
    (∀ s bytes, bulkCharge host r x = some (s, bytes) →
      (chargeBulk host x.1 s bytes { relay := r, out := [] }).1 = false →
        (SameRoomBudgets host s.conn.roomId (x.1.now .charge) r (step host r x).1 ↔
          (roomBudget host r s.conn.roomId (x.1.now .charge)).limit <
              ((roomBudget host r s.conn.roomId (x.1.now .charge)).rollIfNeeded
                (x.1.now .charge)).used + bytes ∨
            bytes = 0)) :=
  ⟨fun _ _ h => refused_tokens host h, fun _ _ h hrefused => refused_budgets h hrefused⟩

namespace TwoDevices

/-- A device message; `id` fills its message id. -/
def msg (id : UInt8) : Json.Members :=
  [("v", Json.ofNat 1), ("type", .str "msg"), ("room", room), ("epoch", Json.ofNat 0),
    ("msg_id", Json.ofBytes (List.replicate 16 id)), ("n", Json.ofBytes (List.replicate 24 0)),
    ("ct", Json.ofBytes (List.replicate 17 0))]

/-- A relay whose connections may send eight bytes at once. -/
def narrow : Host :=
  { relay [] with config := { config with byteBurst := 8 } }

/-- The first connection has just been made. -/
def arrived : RelayState :=
  relayAt narrow 0 [(env 0, .connection "a")]

/-- The relay once both devices have joined and others have used up its budget for the day. -/
def spent : RelayState :=
  { relayAt (relay [msg 1]) 0 joined with
    globalTransferQuota := { limit := 65536, windowMs := DAY_MS, used := 65536,
                             windowStartMs := 0 } }

theorem hello_refused : (refusedForRate arrived (tells 0 0 hello)).any (fun refused =>
    decide (1 ≤ ((refused.1.frameBucket (isTransfer refused.1 refused.2)).refill 0).tokens)) =
      true := by
  decide +kernel

theorem msg_refused : (bulkCharge (relay [msg 1]) spent (tells 1 0 (msg 1))).any (fun charge =>
    (chargeBulk (relay [msg 1]) (env 1) charge.1 charge.2 { relay := spent, out := [] }).1 == false
      && decide (charge.2 ≠ 0 ∧
        ((roomBudget (relay [msg 1]) spent charge.1.conn.roomId 1).rollIfNeeded 1).used + charge.2 ≤
          (roomBudget (relay [msg 1]) spent charge.1.conn.roomId 1).limit)) = true := by
  decide +kernel

/-- A first frame that is too long costs a frame, and a message refused because the relay's
budget has run out is charged to the room all the same. -/
theorem refusal_costs :
    (∃ s raw s', refusedForRate arrived (tells 0 0 hello) = some (s, raw) ∧
      sessionOf (step narrow arrived (tells 0 0 hello)).1 s.handle = some s' ∧
        ¬ SameTokens (isTransfer s raw) 0 s s') ∧
    ∃ s bytes, bulkCharge (relay [msg 1]) spent (tells 1 0 (msg 1)) = some (s, bytes) ∧
      (chargeBulk (relay [msg 1]) (env 1) s bytes { relay := spent, out := [] }).1 = false ∧
      ¬ SameRoomBudgets (relay [msg 1]) s.conn.roomId 1 spent
        (step (relay [msg 1]) spent (tells 1 0 (msg 1))).1 := by
  constructor
  · obtain ⟨⟨s, raw⟩, hrefused, hcounted⟩ := (Option.any_eq_true _ _).mp hello_refused
    have hcounted := of_decide_eq_true hcounted
    obtain ⟨s', hs', hfree⟩ := refused_tokens narrow hrefused
    exact ⟨s, raw, s', hrefused, hs', fun hsame => absurd hcounted (not_le.mpr (hfree.mp hsame))⟩
  · obtain ⟨⟨s, bytes⟩, hcharge, hfits⟩ := (Option.any_eq_true _ _).mp msg_refused
    obtain ⟨hrefused, hfits⟩ := Bool.and_eq_true_iff.mp hfits
    have hrefused := beq_iff_eq.mp hrefused
    obtain ⟨hbytes, hfits⟩ := of_decide_eq_true hfits
    refine ⟨s, bytes, hcharge, hrefused, fun hsame => ?_⟩
    rcases (refused_budgets hcharge hrefused).mp hsame with hfull | hnone
    · exact absurd hfits (Nat.not_le.mpr hfull)
    · exact hbytes hnone

end TwoDevices

end Relay
end Asli
