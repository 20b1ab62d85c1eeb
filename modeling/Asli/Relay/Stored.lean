import Asli.Relay.Heard

/-!
# Stored — the clip that `fetch_last` serves

A clip goes to the room and then to the room's one slot, but a clip over
`retainMaxBytes` goes to the room only.  So the slot holds the newest clip that is small enough, or
nothing at all.
-/

namespace Asli
namespace Relay

open Logic
open RoomRegistry (Tick Ticks RoomTick Tidy Change Op)

/-! ## The slot of a room -/

/-- The clip that a room holds. -/
def retainedOf (g : RoomRegistry) (roomId : String) : Option Retained :=
  (g.room? roomId).bind Room.retained

/-- Every clip that is held was held before. -/
structure Keeps (g g' : RoomRegistry) : Prop where
  options : g'.options = g.options
  clips : ∀ id clip, retainedOf g' id = some clip → retainedOf g id = some clip

section Registry

variable {g g' : RoomRegistry} {roomId frame msgId : String} {nowMs : Int}

namespace Keeps

theorem refl (g : RoomRegistry) : Keeps g g :=
  ⟨rfl, fun _ _ => id⟩

theorem trans {g₁ : RoomRegistry} (h : Keeps g g₁) (h' : Keeps g₁ g') : Keeps g g' :=
  ⟨h'.options.trans h.options, fun id clip hheld => h.clips id clip (h'.clips id clip hheld)⟩

end Keeps

/-- A change that stores nothing gives a room no clip. -/
theorem bind_retained {options : RegistryOptions} {k : Change} {before after : Option Room}
    (h : RoomTick options k before after) (hk : StoresNothing k) {clip : Retained}
    (hheld : after.bind Room.retained = some clip) : before.bind Room.retained = some clip := by
  cases h with
  | touch room active timer => exact hheld
  | drop room => cases hheld
  | store room clip active => exact absurd rfl (hk room.id clip)
  | members room connections active => exact hheld
  | noteId room msgId hnew =>
      have hsame := (RoomRegistry.remember_fields options.dedupWindow room msgId).2.2
      change (RoomRegistry.remember options.dedupWindow room msgId).retained = some clip at hheld
      rw [hsame] at hheld
      exact hheld
  | remove room hempty hnone => cases hheld
  | add id nowMs => cases hheld

theorem keeps_ticks {ok : Change → Prop} (h : Ticks ok g g') (hg : Tidy g)
    (hok : ∀ k, ok k → StoresNothing k) : Keeps g g' := by
  refine ⟨h.options, fun id clip hheld => ?_⟩
  have hroom := h.room (p := fun o => o.bind Room.retained = some clip →
    retainedOf g id = some clip) hg id (fun hbefore => hbefore) ?_
  · exact hroom hheld
  · intro k before after hk hid htick hbefore hafter
    exact hbefore (bind_retained htick (hok k hk) hafter)

theorem keeps_clearTimers (g : RoomRegistry) : Keeps g g.clearTimers := by
  refine ⟨rfl, fun id clip hheld => ?_⟩
  unfold retainedOf at hheld ⊢
  rw [clearTimers_room?] at hheld
  cases hroom : g.room? id with
  | none =>
      rw [hroom] at hheld
      cases hheld
  | some room =>
      rw [hroom] at hheld
      exact hheld

end Registry

section Retain

variable {g : RoomRegistry} {roomId frame msgId : String} {nowMs : Int}

/-- A clip that is too large is not stored, and takes nothing from the slot. -/
theorem retain_large (hlarge : g.options.retainMaxBytes < frame.utf8ByteSize) :
    g.retain roomId frame msgId nowMs = g := by
  unfold RoomRegistry.retain
  exact if_pos hlarge

/-- Of two clips that are small enough, the newer one takes the slot. -/
theorem retain_small (hg : Tidy g) (hsmall : frame.utf8ByteSize ≤ g.options.retainMaxBytes)
    {clip : Retained} (hheld : retainedOf (g.retain roomId frame msgId nowMs) roomId = some clip) :
    clip.frame = frame := by
  unfold retainedOf at hheld
  cases hroom : g.room? roomId with
  | none =>
      have hsame : g.retain roomId frame msgId nowMs = g := by
        unfold RoomRegistry.retain
        extract_lets stored
        rw [hroom]
        split
        · rfl
        · rfl
      rw [hsame, hroom] at hheld
      cases hheld
  | some room =>
      obtain ⟨g₁, room', htidy, -, hroom', hstored, heq⟩ :=
        RoomRegistry.retain_stored hg msgId nowMs hroom hsmall
      rw [heq, RoomRegistry.evict_room htidy roomId, hroom'] at hheld
      change room'.retained = some clip at hheld
      rw [hstored] at hheld
      cases hheld
      rfl

/-- The slots of the other rooms can only be emptied, to stay within the budget. -/
theorem retain_others (hg : Tidy g) {id : String} (hid : id ≠ roomId) {clip : Retained}
    (hheld : retainedOf (g.retain roomId frame msgId nowMs) id = some clip) :
    retainedOf g id = some clip := by
  have hroom := (RoomRegistry.retain_ticks hg roomId frame msgId nowMs).room
    (p := fun o => o.bind Room.retained = some clip → retainedOf g id = some clip) hg id
    (fun hbefore => hbefore) ?_
  · exact hroom hheld
  · intro k before after hk hkid htick hbefore hafter
    cases hk with
    | retained _ _ _ _ => exact absurd hkid.symm hid
    | overBudget _ _ _ _ gone hgone =>
        exact hbefore (bind_retained htick (fun _ _ heq => nomatch heq) hafter)

end Retain

/-! ## Events that pass no clip on -/

variable {host : Host} {env : Env} {r : RelayState} {x : Env × Event} {s : Session} {raw : String}
  {message : Envelope} {t t' : Turn}

theorem keeps_does {a : Act} (h : Does host env a t t') (hr : Sane t.relay)
    (hroom : ∀ k, a = .room k → StoresNothing k) : Keeps t.relay.registry t'.relay.registry := by
  by_cases hshut : a = .shutdown
  · subst hshut
    cases h
    rw [shutdown_registry]
    exact keeps_clearTimers _
  · by_cases hchange : ∃ k, a = .room k
    · obtain ⟨k, rfl⟩ := hchange
      cases h with
      | room htick =>
          have hone : Ticks StoresNothing _ _ := Ticks.one (hroom k rfl) htick
          exact keeps_ticks hone hr.tidy fun _ hk => hk
    · exact keeps_ticks (h.ticks hr (fun k heq => hchange ⟨k, heq⟩) hshut) hr.tidy fun _ hk => hk

theorem keeps_acts {ok : Act → Prop} (h : Acts host env ok t t') (hr : Sane t.relay)
    (hok : ∀ k, ok (.room k) → StoresNothing k) : Keeps t.relay.registry t'.relay.registry := by
  have hend := h.invariant
    (p := fun t' => Sane t'.relay ∧ Keeps t.relay.registry t'.relay.registry) ⟨hr, Keeps.refl _⟩ ?_
  · exact hend.2
  · rintro t₁ t₂ a ha hdoes ⟨hsane, hkept⟩
    refine ⟨hdoes.sane hsane, hkept.trans (keeps_does hdoes hsane ?_)⟩
    rintro k rfl
    exact hok k ha

theorem plain_storesNothing {k : Change} (hk : plainChange k = true) : StoresNothing k := by
  rintro id clip rfl
  cases hk

/-- An event that is no clip stores none. -/
theorem keeps_doing (h : Doing host x t t') (hr : Sane t.relay)
    (hclip : ∀ h raw, x.2 = .message h (.text raw) → ¬ IsClip host raw) :
    Keeps t.relay.registry t'.relay.registry := by
  refine keeps_acts h hr ?_
  rintro k (hplain | ⟨h, raw, _, _, hevent, hisClip, -⟩)
  · exact plain_storesNothing hplain
  · exact absurd hisClip (hclip h raw hevent)

/-- A chain of acts that takes no notice of what the event is. -/
theorem keeps_sweeping (host : Host) (env : Env) (h : Doing host (env, .sweep) t t')
    (hr : Sane t.relay) :
    Keeps t.relay.registry t'.relay.registry :=
  keeps_doing h hr fun _ _ hevent => nomatch hevent

/-! ## The clips that are passed on -/

/-- A clip is charged to the quota of its room, and to nothing else. -/
theorem chargeRoom_granted (host : Host) (env : Env) (s : Session) (bytes : Nat) (t : Turn) :
    (chargeRoom host env s bytes t).1 =
      (((t.relay.roomQuotas.lookup s.conn.roomId).getD (RollingQuota.new host.config.roomBytesPerDay
        DAY_MS (env.now .handler))).charge bytes (env.now .handler)).1 := by
  unfold chargeRoom
  dsimp only
  split
  next hrefused => simpa using hrefused
  next hgranted => simpa using hgranted

theorem chargeRoom_registry (host : Host) (env : Env) (s : Session) (bytes : Nat) (t : Turn) :
    (chargeRoom host env s bytes t).2.relay.registry = t.relay.registry := by
  unfold chargeRoom
  dsimp only
  split
  · rw [wsClose_registry]
    unfold Turn.sendError Turn.sendJson
    rw [wsSend_relay]
    rfl
  · rfl

/-- Whether `handleClip` gets as far as the room. -/
def reachesRoom (host : Host) (env : Env) (s : Session) (raw : String) (message : Envelope)
    (t : Turn) : Bool :=
  match validateClip message host.config.maxFrameBytes with
  | none => false
  | some clip =>
      let charged := chargeRoom host env s raw.utf8ByteSize t
      decide (roomKeyOf clip.roomText = some s.conn.roomId) && charged.1 &&
        !(charged.2.relay.registry.isDuplicate s.conn.roomId clip.msgIdText).1

/-- The room that an event passes a clip on in, and the frame. -/
def passedClip (host : Host) (r : RelayState) (x : Env × Event) : Option (String × String) :=
  match heard host r x with
  | none => none
  | some (s, raw, message) =>
      if message.type = .clip ∧ reachesRoom host x.1 s raw message { relay := r, out := [] } = true
      then some (s.conn.roomId, raw)
      else none

/-- What the quota of the room and its record of ids decide does not depend on the sessions. -/
theorem reachesRoom_update (h : Handle) (f : Session → Session) :
    reachesRoom host env s raw message (t.update h f) = reachesRoom host env s raw message t := by
  unfold reachesRoom
  cases validateClip message host.config.maxFrameBytes with
  | none => rfl
  | some clip =>
      dsimp only
      have hcharged : (chargeRoom host env s raw.utf8ByteSize (t.update h f)).1 =
          (chargeRoom host env s raw.utf8ByteSize t).1 := by
        rw [chargeRoom_granted, chargeRoom_granted]
        rfl
      rw [hcharged, chargeRoom_registry, chargeRoom_registry]
      rfl

/-- A clip that gets as far as the room takes its slot, if it is small enough. -/
theorem handleClip_stores (hr : Sane t.relay)
    (hreach : reachesRoom host env s raw message t = true) :
    ∃ g msgId, Tidy g ∧ Keeps t.relay.registry g ∧
      (handleClip host env s raw message t).relay.registry =
        g.retain s.conn.roomId raw msgId (env.now .handler) := by
  unfold reachesRoom at hreach
  unfold handleClip
  cases hvalid : validateClip message host.config.maxFrameBytes with
  | none => simp [hvalid] at hreach
  | some clip =>
      rw [hvalid] at hreach
      dsimp only at hreach ⊢
      rw [Bool.and_eq_true, Bool.and_eq_true, decide_eq_true_eq] at hreach
      obtain ⟨⟨hroom, hcharged⟩, hnew⟩ := hreach
      have hfirst : Doing host (env, .sweep) t (chargeRoom host env s raw.utf8ByteSize t).2 :=
        Doing.chargeRoom raw.utf8ByteSize
      have hsecond := hfirst.trans (Doing.isDuplicate s.conn.roomId clip.msgIdText)
      rw [if_neg (not_not.mpr hroom), if_neg (by simp [hcharged]), if_neg (by simpa using hnew)]
      refine ⟨_, clip.msgIdText, (hsecond.sane hr).tidy, keeps_sweeping host env hsecond hr, ?_⟩
      change RoomRegistry.retain (fanOut _ _ _).relay.registry _ _ _ _ = _
      rw [fanClip_registry]

/-- A clip that does not get as far as the room is not stored. -/
theorem handleClip_keeps (hr : Sane t.relay)
    (hreach : reachesRoom host env s raw message t = false) :
    Keeps t.relay.registry (handleClip host env s raw message t).relay.registry := by
  unfold reachesRoom at hreach
  unfold handleClip
  cases hvalid : validateClip message host.config.maxFrameBytes with
  | none => exact keeps_sweeping host env (Doing.rejectMalformed _) hr
  | some clip =>
      rw [hvalid] at hreach
      dsimp only at hreach ⊢
      by_cases hroom : roomKeyOf clip.roomText = some s.conn.roomId
      · rw [if_neg (not_not.mpr hroom)]
        have hfirst : Doing host (env, .sweep) t (chargeRoom host env s raw.utf8ByteSize t).2 :=
          Doing.chargeRoom raw.utf8ByteSize
        have hsecond := hfirst.trans (Doing.isDuplicate s.conn.roomId clip.msgIdText)
        split
        · exact keeps_sweeping host env hfirst hr
        next hcharged =>
          split
          · exact keeps_sweeping host env hsecond hr
          next hnew =>
            have hcharged : (chargeRoom host env s raw.utf8ByteSize t).1 = true := by
              simpa using hcharged
            simp [hroom, hcharged, hnew] at hreach
      · rw [if_pos hroom]
        exact keeps_sweeping host env (Doing.wsClose _ _ _) hr

/-- One event: the slots keep what they held, or one of them takes the clip that is passed on. -/
theorem step_slots (hr : Sane r) (x : Env × Event) :
    (passedClip host r x = none ∧ Keeps r.registry (step host r x).1.registry) ∨
      ∃ roomId raw g msgId nowMs, passedClip host r x = some (roomId, raw) ∧ Tidy g ∧
        Keeps r.registry g ∧ (step host r x).1.registry = g.retain roomId raw msgId nowMs := by
  have hacts : Doing host x ⟨r, []⟩ _ := step_acts hr x
  change (_ ∧ Keeps r.registry (handle host x.1 x.2 ⟨r, []⟩).relay.registry) ∨
    ∃ roomId raw g msgId nowMs, _ ∧ Tidy g ∧ Keeps r.registry g ∧
      (handle host x.1 x.2 ⟨r, []⟩).relay.registry = g.retain roomId raw msgId nowMs
  cases hheard : heard host r x with
  | none =>
      refine Or.inl ⟨by simp [passedClip, hheard], ?_⟩
      by_cases hclip : ∃ h raw, x.2 = .message h (.text raw) ∧ IsClip host raw
      · obtain ⟨h, raw, hevent, -⟩ := hclip
        exact keeps_sweeping host x.1 (unheard_acts hr hevent hheard) hr
      · exact keeps_doing hacts hr fun h raw hevent hisClip => hclip ⟨h, raw, hevent, hisClip⟩
  | some found =>
      obtain ⟨s, raw, message⟩ := found
      obtain ⟨t, hears⟩ := handle_heard hheard
      by_cases htype : message.type = .clip
      · obtain ⟨g, ht, hg⟩ := hears.turn
        have hsane : Sane t.relay := by
          rw [ht]
          exact (Doing.tweak s.handle g hg : Doing host x ⟨r, []⟩ _).sane hr
        have hregistry : t.relay.registry = r.registry := by rw [ht]; rfl
        have hhandler : handleReady host x.1 s raw message t =
            handleClip host x.1 s raw message t := by
          unfold handleReady
          rw [htype]
        have hreach : reachesRoom host x.1 s raw message t =
            reachesRoom host x.1 s raw message { relay := r, out := [] } := by
          rw [ht, reachesRoom_update]
        rw [hears.handled, hhandler, ← hregistry]
        cases hpassed : reachesRoom host x.1 s raw message { relay := r, out := [] } with
        | true =>
            obtain ⟨g₁, msgId, htidy, hkeeps, heq⟩ := handleClip_stores hsane (hreach.trans hpassed)
            exact Or.inr ⟨s.conn.roomId, raw, g₁, msgId,
                _, by simp [passedClip, hheard, htype, hpassed],
              htidy, hkeeps, heq⟩
        | false =>
            exact Or.inl ⟨by simp [passedClip, hheard, hpassed],
              handleClip_keeps hsane (hreach.trans hpassed)⟩
      · refine Or.inl ⟨by simp [passedClip, hheard, htype], keeps_doing hacts hr ?_⟩
        rintro h raw' hevent ⟨other, hother, hclip⟩
        rw [hears.event] at hevent
        cases hevent
        rw [hears.parses] at hother
        cases hother
        exact htype hclip

/-- A clip that is passed on goes to every other ready connection of the room that is open. -/
theorem passed_forwarded {roomId : String} (h : passedClip host r x = some (roomId, raw)) :
    ∃ k, x.2 = .message k (.text raw) ∧ ∀ p ∈ r.sessions, p.handle ≠ k → p.readyIn roomId = true →
      p.isOpen = true → Effect.forward k p.handle raw ∈ (step host r x).2 := by
  unfold passedClip at h
  split at h
  · cases h
  next s raw' message hheard =>
    split at h
    next hclip =>
      obtain ⟨htype, hreach⟩ := hclip
      cases h
      obtain ⟨t, hears⟩ := handle_heard hheard
      refine ⟨s.handle, hears.event, ?_⟩
      intro p hp hne hready hopen
      obtain ⟨g, ht, -⟩ := hears.turn
      rw [← reachesRoom_update s.handle g, ← ht] at hreach
      change _ ∈ (handle host x.1 x.2 ⟨r, []⟩).out
      rw [hears.handled]
      unfold handleReady
      rw [htype]
      unfold reachesRoom at hreach
      unfold handleClip
      cases hvalid : validateClip message host.config.maxFrameBytes with
      | none => simp [hvalid] at hreach
      | some clip =>
          rw [hvalid] at hreach
          dsimp only at hreach ⊢
          rw [Bool.and_eq_true, Bool.and_eq_true, decide_eq_true_eq] at hreach
          obtain ⟨⟨hroom, hcharged⟩, hnew⟩ := hreach
          rw [if_neg (not_not.mpr hroom), if_neg (by simp [hcharged]), if_neg (by simpa using hnew)]
          -- the charge was granted, and left the sessions alone
          have hsessions : (chargeRoom host x.1 s raw.utf8ByteSize t).2.relay.sessions =
              t.relay.sessions := by
            unfold chargeRoom at hcharged ⊢
            dsimp only at hcharged ⊢
            split at hcharged
            · cases hcharged
            next hgranted => rw [if_neg hgranted]; rfl
          have hthere : p ∈ t.relay.sessions := by
            rw [ht]
            exact mem_update_other (t := ⟨r, []⟩) hp hne
          change Effect.forward _ _ _ ∈ (fanOut _ _ _).out
          rw [forward_fanClip]
          refine Or.inr ⟨p, List.mem_filter.mpr ⟨?_, ?_⟩, ⟨rfl, rfl, rfl⟩, hopen⟩
          · change p ∈ (chargeRoom host x.1 s raw.utf8ByteSize t).2.relay.sessions
            rw [hsessions]
            exact hthere
          · simp [hne, hready]
    next => cases h

/-! ## Runs -/

/-- The clips that are passed on in a run that starts in a state, each with its room. -/
def clipsOver (host : Host) : List (Env × Event) → RelayState → List (String × String)
  | [], _ => []
  | x :: run, r => (passedClip host r x).toList ++ clipsOver host run (step host r x).1

theorem clipsOver_snoc (host : Host) (run : List (Env × Event)) (x : Env × Event)
    (r : RelayState) :
    clipsOver host (run ++ [x]) r =
      clipsOver host run r ++ (passedClip host (after host r run) x).toList := by
  induction run generalizing r with
  | nil => exact List.append_nil _
  | cons y run ih =>
      calc clipsOver host (y :: run ++ [x]) r
          = (passedClip host r y).toList ++ clipsOver host (run ++ [x]) (step host r y).1 := rfl
        _ = (passedClip host r y).toList ++ (clipsOver host run (step host r y).1 ++
              (passedClip host (after host (step host r y).1 run) x).toList) := by rw [ih]
        _ = clipsOver host (y :: run) r ++ (passedClip host (after host r (y :: run)) x).toList :=
            (List.append_assoc _ _ _).symm

/-- The clips that a new relay passes on in a run, each with its room. -/
def clipsPassed (host : Host) (start : Int) (run : List (Env × Event)) : List (String × String) :=
  clipsOver host run (createRelay host.config start)

/-- The newest clip of a room. -/
def newestClip (passed : List (String × String)) (roomId : String) : Option String :=
  ((passed.filter fun c => c.1 == roomId).map Prod.snd).getLast?

/-- The clips that are small enough to be stored. -/
def smallClips (host : Host) (passed : List (String × String)) : List (String × String) :=
  passed.filter fun c => decide (c.2.utf8ByteSize ≤ host.config.retainMaxBytes)

theorem newestClip_snoc (passed : List (String × String)) (c : String × String) (roomId : String) :
    newestClip (passed ++ [c]) roomId =
      if c.1 = roomId then some c.2 else newestClip passed roomId := by
  unfold newestClip
  rw [List.filter_append]
  by_cases hroom : c.1 = roomId
  · rw [if_pos hroom, List.filter_cons_of_pos (by simpa using hroom), List.filter_nil,
      List.map_append, List.getLast?_append]
    rfl
  · rw [if_neg hroom, List.filter_cons_of_neg (by simpa using hroom), List.filter_nil,
      List.append_nil]

/-- Every slot holds the newest clip of its room that is small enough, or nothing. -/
structure Stored (host : Host) (passed : List (String × String)) (r : RelayState) : Prop where
  limit : r.registry.options.retainMaxBytes = host.config.retainMaxBytes
  newest : ∀ roomId clip, retainedOf r.registry roomId = some clip →
    newestClip (smallClips host passed) roomId = some clip.frame

theorem stored_step {passed : List (String × String)} (h : Stored host passed r) (hr : Sane r)
    (x : Env × Event) :
    Stored host (passed ++ (passedClip host r x).toList) (step host r x).1 := by
  rcases step_slots hr x with
    ⟨hnone, hkeeps⟩ | ⟨roomId, raw, g, msgId, nowMs, hsome, htidy, hkeeps, heq⟩
  · rw [hnone, Option.toList_none, List.append_nil]
    refine ⟨(congrArg _ hkeeps.options).trans h.limit, ?_⟩
    intro id clip hheld
    exact h.newest id clip (hkeeps.clips id clip hheld)
  · rw [hsome, Option.toList_some]
    have hlimit : g.options.retainMaxBytes = host.config.retainMaxBytes :=
      (congrArg _ hkeeps.options).trans h.limit
    have hoptions : (step host r x).1.registry.options = g.options := by
      rw [heq]
      exact (RoomRegistry.retain_ticks htidy roomId raw msgId nowMs).options
    refine ⟨(congrArg _ hoptions).trans hlimit, ?_⟩
    intro id clip hheld
    rw [heq] at hheld
    unfold smallClips
    rw [List.filter_append]
    by_cases hsmall : raw.utf8ByteSize ≤ host.config.retainMaxBytes
    · rw [List.filter_cons_of_pos (by simpa using hsmall), List.filter_nil, newestClip_snoc]
      by_cases hid : roomId = id
      · subst hid
        rw [if_pos rfl, retain_small htidy (hlimit ▸ hsmall) hheld]
      · rw [if_neg hid]
        exact h.newest id clip (hkeeps.clips id clip (retain_others htidy (Ne.symm hid) hheld))
    · -- it goes to the room only
      rw [List.filter_cons_of_neg (by simpa using hsmall), List.filter_nil, List.append_nil]
      rw [retain_large (hlimit ▸ Nat.lt_of_not_le hsmall)] at hheld
      exact h.newest id clip (hkeeps.clips id clip hheld)

theorem stored_run (host : Host) (start : Int) (run : List (Env × Event)) :
    Stored host (clipsPassed host start run) (relayAt host start run) := by
  induction run using List.reverseRecOn with
  | nil => exact ⟨rfl, fun _ _ hheld => nomatch hheld⟩
  | append_singleton run x ih =>
      rw [relayAt_snoc]
      unfold clipsPassed
      rw [clipsOver_snoc]
      exact stored_step ih (relayAt_sane host start run) x

/-! ## What is served -/

/-- The members of an error message without a retry hint. -/
def errorMembers (code text : String) : Json.Members :=
  [("v", Json.ofNat 1), ("type", .str "error"), ("code", .str code), ("message", .str text)]

/-- A connection asks for the retained clip of its room. -/
def Asks (host : Host) (r : RelayState) (x : Env × Event) (s : Session) : Prop :=
  ∃ raw message, heard host r x = some (s, raw, message) ∧ message.type = .fetchLast

/-- The clip that a room holds at some time, unless it has expired. -/
def heldFor (r : RelayState) (x : Env × Event) (roomId : String) : Option Retained :=
  (r.registry.retainedFor roomId (x.1.now .handler)).1

theorem asks_handled (h : Asks host r x s) :
    ∃ t, handle host x.1 x.2 { relay := r, out := [] } = handleFetchLast host x.1 s t ∧
      t.out = [] ∧ t.relay.registry = r.registry ∧ s.isOpen = true ∧ s ∈ t.relay.sessions ∧
      (WellNumbered r → WellNumbered t.relay) := by
  obtain ⟨raw, message, hheard, htype⟩ := h
  obtain ⟨t, hears⟩ := handle_heard hheard
  obtain ⟨g, ht, hg⟩ := hears.turn
  refine ⟨t, ?_, ?_, ?_, hears.open_, hears.session, ?_⟩
  · rw [hears.handled]
    unfold handleReady
    rw [htype]
  · rw [ht]
    rfl
  · rw [ht]
    rfl
  · intro hr
    rw [ht]
    exact (Renewed.update fun p _ _ => congrArg Connection.handle (hg p).conn :
      Renewed (⟨r, []⟩ : Turn) _).numbered hr

/-- The three answers of `fetch_last`. -/
theorem asks_answered (hr : WellNumbered r) (h : Asks host r x s) :
    (shouldPark (x.1.bufferedAmount s.handle) host.config.backpressureSoftBytes = true ∧
        (step host r x).2 = [.send s.handle (.json (errorMembers "RATE_LIMITED"
          "the connection is behind; try again once it has caught up" ++
            [("retry_after_ms", Turn.jsonInt BACKPRESSURE_RETRY_AFTER_MS)]))]) ∨
      shouldPark (x.1.bufferedAmount s.handle) host.config.backpressureSoftBytes = false ∧
        ((∃ clip, heldFor r x s.conn.roomId = some clip ∧
            (step host r x).2 = [.send s.handle (.stored (retainedReply host clip))]) ∨
          (heldFor r x s.conn.roomId = none ∧
            (step host r x).2 = [.send s.handle (.json (errorMembers "NO_RETAINED"
              "no clip is currently retained for this room"))])) := by
  obtain ⟨t, hhandled, hout, hregistry, hopen, hs, hnumbered⟩ := asks_handled h
  have hwrites : t.isOpen s.handle = true := by
    rw [(hnumbered hr).isOpen hs]
    exact hopen
  have hsend : ∀ (g : RoomRegistry) (data : Outgoing),
      ((t.setRegistry g).wsSend s.handle data).out = [.send s.handle data] := by
    intro g data
    unfold Turn.wsSend
    rw [if_pos (show (t.setRegistry g).isOpen s.handle = true from hwrites)]
    change t.out ++ [_] = _
    rw [hout, List.nil_append]
  have hsent : (step host r x).2 = (handleFetchLast host x.1 s t).out :=
    congrArg Turn.out hhandled
  rw [hsent]
  unfold handleFetchLast heldFor
  rw [hregistry]
  split
  next hbehind => exact Or.inl ⟨hbehind, hsend t.relay.registry _⟩
  next hfree =>
    refine Or.inr ⟨Bool.eq_false_iff.mpr hfree, ?_⟩
    cases hheld : (r.registry.retainedFor s.conn.roomId (x.1.now .handler)).1 with
    | none =>
        refine Or.inr ⟨rfl, ?_⟩
        dsimp only
        rw [hheld]
        exact hsend _ _
    | some clip =>
        refine Or.inl ⟨clip, rfl, ?_⟩
        dsimp only
        rw [hheld]
        exact hsend _ _

theorem heldFor_retained {roomId : String} {clip : Retained} (h : heldFor r x roomId = some clip) :
    retainedOf r.registry roomId = some clip := by
  obtain ⟨⟨room, hroom, hclip⟩, -⟩ := RoomRegistry.retainedFor_some h
  unfold retainedOf
  rw [hroom]
  exact hclip

/-- A connection that is not behind is served what its room holds. -/
theorem sentAt_served (host : Host) (start : Int) (run : List (Env × Event)) (x : Env × Event)
    {clip : Retained} (hasks : Asks host (relayAt host start run) x s)
    (hfree : shouldPark (x.1.bufferedAmount s.handle) host.config.backpressureSoftBytes = false)
    (hheld : heldFor (relayAt host start run) x s.conn.roomId = some clip) :
    sentAt host start run x = [.send s.handle (.stored (retainedReply host clip))] := by
  rcases asks_answered (relayAt_sane host start run).numbered hasks with
    ⟨hbehind, -⟩ | ⟨-, ⟨served, hserved, hanswer⟩ | ⟨hnone, -⟩⟩
  · rw [hfree] at hbehind
    cases hbehind
  · rw [hheld] at hserved
    cases hserved
    exact hanswer
  · rw [hheld] at hnone
    cases hnone

/-- In every run, `fetch_last` is answered with the newest of the clips passed on in
the room that are of at most `retainMaxBytes` bytes; or, once that clip is not held any more, with
`NO_RETAINED`; or, behind what the socket has not drained, with `RATE_LIMITED`. -/
theorem fetch_last_newest (host : Host) (start : Int) (run : List (Env × Event)) (x : Env × Event)
    (s : Session) (hasks : Asks host (relayAt host start run) x s) :
    (shouldPark (x.1.bufferedAmount s.handle) host.config.backpressureSoftBytes = true ∧
        sentAt host start run x = [.send s.handle (.json (errorMembers "RATE_LIMITED"
          "the connection is behind; try again once it has caught up" ++
            [("retry_after_ms", Turn.jsonInt BACKPRESSURE_RETRY_AFTER_MS)]))]) ∨
      (∃ clip, heldFor (relayAt host start run) x s.conn.roomId = some clip ∧
        newestClip (smallClips host (clipsPassed host start run)) s.conn.roomId = some clip.frame ∧
        sentAt host start run x = [.send s.handle (.stored (retainedReply host clip))]) ∨
      (heldFor (relayAt host start run) x s.conn.roomId = none ∧
        sentAt host start run x = [.send s.handle (.json (errorMembers "NO_RETAINED"
          "no clip is currently retained for this room"))]) := by
  rcases asks_answered (relayAt_sane host start run).numbered hasks with
    hbehind | ⟨-, ⟨clip, hheld, hserved⟩ | hnone⟩
  · exact Or.inl hbehind
  · have hnewest := (stored_run host start run).newest s.conn.roomId clip (heldFor_retained hheld)
    exact Or.inr (Or.inl ⟨clip, hheld, hnewest, hserved⟩)
  · exact Or.inr (Or.inr hnone)

/-! ### A clip that is too large -/

namespace TwoDevices

/-- A clip of this size; `id` fills its message id. -/
def clip (id : UInt8) (size : Nat) : Json.Members :=
  [("v", Json.ofNat 1), ("type", .str "clip"), ("room", room), ("epoch", Json.ofNat 0),
    ("msg_id", Json.ofBytes (List.replicate 16 id)), ("n", Json.ofBytes (List.replicate 24 0)),
    ("ct", Json.ofBytes (List.replicate size 0))]

def fetchLast : Json.Members :=
  [("v", Json.ofNat 1), ("type", .str "fetch_last")]

def clips : Host :=
  relay [clip 1 17, clip 2 90, fetchLast]

/-- A small clip, then one that is too large to be stored. -/
def twoClips : List (Env × Event) :=
  joined ++ [tells 1 0 (clip 1 17), tells 2 0 (clip 2 90)]

/-- What the second device finds when it asks. -/
theorem twoClips_asked :
    (heard clips (relayAt clips 0 twoClips) (tells 3 1 fetchLast)).map
        (fun found => (found.2.2.type, found.1.conn.roomId,
          (heldFor (relayAt clips 0 twoClips) (tells 3 1 fetchLast) found.1.conn.roomId).map
            Retained.frame,
          newestClip (clipsPassed clips 0 twoClips) found.1.conn.roomId)) =
      some (.fetchLast, "00000000000000000000000000000000", some (text (clip 1 17)),
        some (text (clip 2 90))) := by
  decide +kernel

/-- The second device asks. -/
theorem twoClips_asks : ∃ s clip, Asks clips (relayAt clips 0 twoClips) (tells 3 1 fetchLast) s ∧
    heldFor (relayAt clips 0 twoClips) (tells 3 1 fetchLast) s.conn.roomId = some clip ∧
    clip.frame = text (TwoDevices.clip 1 17) ∧
    newestClip (clipsPassed clips 0 twoClips) s.conn.roomId =
      some (text (TwoDevices.clip 2 90)) := by
  have hasked := twoClips_asked
  rw [Option.map_eq_some_iff] at hasked
  obtain ⟨⟨s, raw, message⟩, hheard, heq⟩ := hasked
  simp only [Prod.mk.injEq] at heq
  obtain ⟨htype, -, hframe, hnewest⟩ := heq
  obtain ⟨clip, hheld, hclip⟩ := Option.map_eq_some_iff.mp hframe
  exact ⟨s, clip, ⟨raw, message, hheard, htype⟩, hheld, hclip, hnewest⟩

/-- It is served the newest clip that is small enough. -/
theorem fetch_last_small : ∃ s clip,
    sentAt clips 0 twoClips (tells 3 1 fetchLast) =
        [.send s (.stored (retainedReply clips clip))] ∧
      clip.frame = text (TwoDevices.clip 1 17) := by
  obtain ⟨s, clip, hasks, hheld, hframe, -⟩ := twoClips_asks
  rcases fetch_last_newest clips 0 twoClips (tells 3 1 fetchLast) s hasks with
    ⟨hbehind, -⟩ | ⟨served, hserved, -, hsent⟩ | ⟨hnone, -⟩
  · exact absurd hbehind (show ¬ shouldPark 0 65536 = true by decide)
  · rw [hheld] at hserved
    cases hserved
    exact ⟨s.handle, clip, hsent, hframe⟩
  · rw [hheld] at hnone
    cases hnone

/-- The newest clip of the room is another one. -/
theorem older_clip_served : ¬ ∀ (host : Host) (start : Int) (run : List (Env × Event))
    (x : Env × Event) (s : Session), Asks host (relayAt host start run) x s →
      ∀ clip, heldFor (relayAt host start run) x s.conn.roomId = some clip →
        sentAt host start run x = [.send s.handle (.stored (retainedReply host clip))] →
          newestClip (clipsPassed host start run) s.conn.roomId = some clip.frame := by
  intro hclaim
  obtain ⟨s, clip, hasks, hheld, hframe, hnewest⟩ := twoClips_asks
  have hsent := sentAt_served clips 0 twoClips (tells 3 1 fetchLast) hasks rfl hheld
  have hlast := hclaim clips 0 twoClips (tells 3 1 fetchLast) s hasks clip hheld hsent
  rw [hnewest, hframe] at hlast
  exact absurd hlast (by decide +kernel)

end TwoDevices

end Relay
end Asli
