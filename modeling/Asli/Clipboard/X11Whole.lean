import Asli.Clipboard.X11Handed

/-!
# X11Whole — a read is whole or refused

What a read takes of the property is what the owner that was asked has put there, as long as no
owner that was given up writes between.
-/

namespace Asli
namespace Clipboard
namespace X11Whole

open Logic
open X11Read (Atom Atoms Offer Event Property Transfer Wanted Phase Next Reading Display atomsOf)
open X11Read.Display (Step ReadTo next exceeded propertyError getProperty_readTo deleteProperty_some
  poll_waiting poll_placed poll_refused poll_busy poll_chunk)

variable (A : Atoms) (offers : Nat → Offer)

section Handed

variable {A : Atoms} {offers : Nat → Offer} {small : Prop} {s : Display} {t : Talk}
  {wanted : Wanted}

/-! ### What the read does -/

theorem deleteProperty_frame : s.deleteProperty.owner = s.owner ∧
    s.deleteProperty.requests = s.requests ∧ s.deleteProperty.inbox = s.inbox := by
  unfold Display.deleteProperty
  cases s.property <;> exact ⟨rfl, rfl, rfl⟩

/-- A chunk that may not be read is one of a content that is too large. -/
theorem ChunkPut.exceeds {limit o : Nat} {content out chunk : Bytes}
    (h : ChunkPut small s t limit o content out chunk)
    (hexceeds : limit - out.length < chunk.length) : ¬ small ∧ limit < content.length := by
  have hrest := h.rest
  split at hrest
  · rename_i hnil
    rw [hnil] at hexceeds
    exact absurd hexceeds (Nat.not_lt_zero _)
  · rcases hrest.transfers with ⟨late, rest, -, hwhole, -⟩
    have hlong : limit < content.length := by
      rw [← hwhole]
      simp only [List.length_append]
      omega
    exact ⟨fun hsmall => absurd (hrest.short hsmall) (Nat.not_le.2 hlong), hlong⟩

/-- A conversion is asked for. -/
theorem Waiting.begins (hsilent : Silent (wanted.target A) s.inbox) :
    Waiting A offers small (s.convert A wanted) (Talk.begin_ s.owner) wanted := by
  rcases (deleteProperty_frame (s := s)) with ⟨howner, -, hinbox⟩
  simp only [Display.convert]
  split
  · rename_i o hdeleted
    have ho : s.owner = some o := howner.symm.trans hdeleted
    rw [ho]
    exact .asked o _ rfl rfl rfl (hinbox.symm ▸ hsilent)
  · rename_i hdeleted
    have ho : s.owner = none := howner.symm.trans hdeleted
    rw [ho]
    refine .refused rfl ?_
    simp only [hinbox]
    exact hsilent.notified

theorem settle_reading {taken : List (Nat × Bytes)} {result : Except Error (Option ClipEvent)} :
    (s.settle taken result).reading = none := by
  unfold Display.settle
  split <;> rfl

/-- A target list leads to another conversion, or to the end of the read. -/
theorem finish_targets {taken : List (Nat × Bytes)} {list : Bytes} :
    s.finish A .targets taken list =
      match wantedOf A list with
      | some wanted => s.convert A wanted
      | none =>
          s.settle [] (.ok (if A.KDE_PASSWORD_HINT ∈ atomsOf list then some marked else none)) := by
  simp only [Display.finish, wantedOf]
  by_cases hmarked : A.KDE_PASSWORD_HINT ∈ atomsOf list
  · simp only [hmarked, if_true]
  · simp only [hmarked, if_false]
    cases [A.UTF8_STRING, A.TEXT_PLAIN_UTF8, A.TEXT_PLAIN].find? (· ∈ atomsOf list) with
    | some target => rfl
    | none =>
        by_cases himage : A.IMAGE_PNG ∈ atomsOf list
        · simp only [himage, if_true]
        · simp only [himage, if_false]

/-- Without another conversion to ask for, the read is over. -/
theorem finish_ends {taken : List (Nat × Bytes)} {bytes : Bytes}
    (h : wanted = .targets → wantedOf A bytes = none) :
    (s.finish A wanted taken bytes).reading = none := by
  cases wanted with
  | targets =>
      rw [finish_targets, h rfl]
      exact settle_reading
  | text target =>
      simp only [Display.finish]
      split <;> exact settle_reading
  | image => exact settle_reading

section Reads

variable {r r' : Reading} (hr : s.reading = some r)
  (h : InPhase A offers small s t r.wanted r.phase)

include hr h

theorem InPhase.polls (hr' : (s.poll A).reading = some r') :
    InPhase A offers small (s.poll A) t r'.wanted r'.phase := by
  cases hinbox : s.inbox with
  | nil =>
      have hsame : s.poll A = s := by simp only [Display.poll, hinbox]
      rw [hsame] at hr' ⊢
      cases hr.symm.trans hr'
      exact h
  | cons event rest =>
      have hpasses : s.poll A = { s with inbox := rest } →
          (r.phase = .waiting → ∀ property,
            event ≠ .selectionNotify (r.wanted.target A) property) →
          (∀ out, r.phase = .incremental out → event ≠ .propertyNotify) →
          InPhase A offers small (s.poll A) t r'.wanted r'.phase := by
        intro hsame hwaiting hincremental
        rw [hsame] at hr' ⊢
        cases hr.symm.trans hr'
        exact h.passes hinbox hwaiting hincremental
      have hbusy : r.phase ≠ .waiting →
          (∀ out, r.phase = .incremental out → event ≠ .propertyNotify) →
          InPhase A offers small (s.poll A) t r'.wanted r'.phase :=
        fun hwaiting hchunks => hpasses (poll_busy hinbox hr hwaiting hchunks)
          (fun heq => absurd heq hwaiting) hchunks
      cases hphase : r.phase with
      | waiting =>
          by_cases hevent : ∀ property, event ≠ .selectionNotify (r.wanted.target A) property
          · exact hpasses (poll_waiting hinbox hr hphase hevent) (fun _ => hevent)
              fun _ heq => by cases hphase.symm.trans heq
          · obtain ⟨property, hevent⟩ := not_forall_not.1 hevent
            cases property with
            | false =>
                -- refused: nothing was read, and nothing follows
                rw [poll_refused hinbox hr hphase hevent, finish_ends fun _ => rfl] at hr'
                cases hr'
            | true =>
                rw [hphase] at h
                rw [poll_placed hinbox hr hphase hevent] at hr' ⊢
                cases hr'
                have hnotified : ∀ {property}, Notified (r.wanted.target A) property s.inbox →
                    property = true ∧ Quiet rest := by
                  intro property hnotified
                  rw [hinbox] at hnotified
                  rcases hnotified.tail with ⟨hsame, hquiet⟩ | ⟨hother, -⟩
                  · cases hevent.symm.trans hsame
                    exact ⟨rfl, hquiet rfl⟩
                  · exact absurd hevent (hother true)
                have hheard : ¬ Silent (r.wanted.target A) s.inbox := by
                  rw [hinbox]
                  exact fun hsilent => hsilent.tail.1 true hevent
                -- the event is the answer itself, so the owner has notified it
                cases h with
                | asked o late owner stage requests silent => exact absurd silent hheard
                | placed o content p late given stage answers property holds silent =>
                    exact absurd silent hheard
                | notified o content p given stage property holds notified =>
                    exact ⟨stage, (hnotified notified).2, o, content, p, given, property,
                      holds.same rfl, rfl, Nat.zero_le _⟩
                | refused stage notified => cases (hnotified notified).1
      | property out value words =>
          exact hbusy (fun heq => by cases hphase.symm.trans heq)
            (fun _ heq => by cases hphase.symm.trans heq)
      | acknowledging next =>
          exact hbusy (fun heq => by cases hphase.symm.trans heq)
            (fun _ heq => by cases hphase.symm.trans heq)
      | incremental out =>
          by_cases hevent : event = .propertyNotify
          · rw [poll_chunk hinbox hr hphase hevent] at hr' ⊢
            cases hr'
            rw [hphase] at h
            rcases h with ⟨hstage, o, content, hgiven, ⟨hquiet, -⟩ | ⟨chunk, hput, hnotified⟩⟩
            · -- no chunk has been put, so there is no news of one
              rw [hinbox] at hquiet
              exact absurd hevent hquiet.tail.1
            · rw [hinbox] at hnotified
              rcases hnotified.tail with ⟨-, hquiet⟩ | ⟨hother, -⟩
              · exact ⟨hstage, hquiet, o, content, chunk, hgiven, hput.same rfl rfl, rfl,
                  Nat.zero_le _⟩
              · exact absurd hevent hother
          · exact hbusy (fun heq => by cases hphase.symm.trans heq) fun _ _ => hevent

end Reads

section Value

variable {out : Option Bytes} {value : Bytes} {words : Nat} {taken : List (Nat × Bytes)}
  {p : Property} (hr : s.reading = some ⟨wanted, .property out value words, taken⟩)
  (hproperty : s.property = some p) (hread : ReadTo p.value value words)

include hr hproperty hread

/-- A request for the value that is not refused reads it to its end, or a piece further. -/
theorem get_reads {r' : Reading} (hr' : s.get.reading = some r') :
    s.get = { s with reading := some r' } ∧ r'.wanted = wanted ∧
      ((r'.phase = .acknowledging (next out p.incr p.value) ∧
          p.value.length ≤ wanted.limit - (out.getD []).length) ∨
        ∃ value words', r'.phase = .property out value words' ∧ ReadTo p.value value words' ∧
          words < words') := by
  rcases getProperty_readTo hread with ⟨piece, bytesAfter, hget, hlast, hnext⟩
  rw [← hproperty] at hget
  revert hr'
  simp only [Display.get, hr, hget]
  split
  · intro hr'
    rw [settle_reading] at hr'
    cases hr'
  · rename_i hfits
    split
    · rename_i hend
      intro hr'
      cases hr'
      rw [← List.length_append, hlast hend] at hfits
      exact ⟨rfl, rfl, .inl ⟨by rw [hlast hend], Nat.not_lt.1 hfits⟩⟩
    · rename_i hend
      intro hr'
      cases hr'
      refine ⟨rfl, rfl, .inr ⟨_, _, rfl, hnext hend, ?_⟩⟩
      -- without a word more there would have been nothing in the piece
      by_contra hstays
      have hsame : words + piece.length / 4 = words := by omega
      have hpiece : value ++ piece = value := by
        rw [(hnext hend).1, hsame, ← hread.1]
      exact hend (.inr (List.append_right_eq_self.1 hpiece))

/-- One that is refused has found more than may be read. -/
theorem get_refused {call : Wanted × Except Error Bytes} (hcall : returns A s .get = some call) :
    let error := propertyError wanted out (.tooLarge wanted.limit)
    call = (wanted, .error error) ∧ s.get = s.settle [] (.error error) ∧
      wanted.limit - (out.getD []).length < p.value.length := by
  rcases getProperty_readTo hread with ⟨piece, bytesAfter, hget, hlast, hnext⟩
  rw [← hproperty] at hget
  -- what has been read is the beginning of the value
  have hle : value.length + piece.length ≤ p.value.length := by
    rw [← List.length_append]
    by_cases hend : bytesAfter = 0 ∨ piece = []
    · exact (congrArg List.length (hlast hend)).le
    · rw [(hnext hend).1]
      exact List.length_take_le' _ _
  revert hcall
  simp only [returns, Display.get, hr, hget]
  split
  · rename_i hexceeds
    intro hcall
    cases hcall
    exact ⟨rfl, rfl, hexceeds.trans_le hle⟩
  · intro hcall
    cases hcall

end Value

section Reads

variable {r r' : Reading} (hr : s.reading = some r)
  (h : InPhase A offers small s t r.wanted r.phase)

include hr h

theorem InPhase.gets (hr' : s.get.reading = some r') :
    InPhase A offers small s.get t r'.wanted r'.phase := by
  rcases r with ⟨wanted, phase, taken⟩
  have hidle : s.get = s → InPhase A offers small s.get t r'.wanted r'.phase := by
    intro hsame
    rw [hsame] at hr' ⊢
    cases hr.symm.trans hr'
    exact h
  cases phase with
  | waiting => exact hidle (by simp only [Display.get, hr])
  | acknowledging next => exact hidle (by simp only [Display.get, hr])
  | incremental out => exact hidle (by simp only [Display.get, hr])
  | property out value words =>
      cases out with
      | none =>
          rcases h with ⟨hstage, hq, o, content, p, hgiven, hp, hholds, hread⟩
          rcases get_reads hr hp hread hr' with
            ⟨hget, hwanted, ⟨hphase, hfits⟩ | ⟨value, words, hphase, hread, -⟩⟩
          · rw [hget, hwanted, hphase]
            cases hholds with
            | whole streams => exact ⟨o, hgiven, hfits⟩
            | announced p incr short streaming =>
                -- the chunks are still to come
                simp only [next, incr, if_true]
                exact ⟨hstage, hq, (fun hnone => by cases hp.symm.trans hnone), Nat.zero_le _, o,
                  content, hgiven, streaming.same rfl⟩
          · rw [hget, hwanted, hphase]
            exact ⟨hstage, hq, o, content, p, hgiven, hp, hholds.same rfl, hread⟩
      | some out =>
          rcases h with ⟨hstage, hq, o, content, chunk, hgiven, hput, hread⟩
          have hread : ReadTo (Property.value ⟨o, false, chunk⟩) value words := hread
          rcases get_reads hr hput.property hread hr' with
            ⟨hget, hwanted, ⟨hphase, hchunk⟩ | ⟨value, words, hphase, hread, -⟩⟩
          · rw [hget, hwanted, hphase]
            have hrest := hput.rest
            simp only [next]
            by_cases hend : chunk = []
            · -- the empty chunk: what has come before is the content
              rw [if_pos hend] at hrest
              rw [if_pos hend]
              exact ⟨o, hrest.2 ▸ hgiven, hput.fits⟩
            · rw [if_neg hend] at hrest
              rw [if_neg hend]
              have hfits : (out ++ chunk).length ≤ wanted.limit := by
                have hout : out.length ≤ wanted.limit := hput.fits
                simp only [Option.getD_some] at hchunk
                rw [List.length_append]
                omega
              exact ⟨hstage, hq, (fun hnone => by cases hput.property.symm.trans hnone), hfits, o,
                content, hgiven, hrest.same rfl⟩
          · rw [hget, hwanted, hphase]
            exact ⟨hstage, hq, o, content, chunk, hgiven, hput.same rfl rfl, hread⟩

/-- The value is deleted: the next chunk may come, or the content is there. -/
theorem InPhase.acknowledges (hfollows : follows A s = none)
    (hr' : (s.acknowledge A).reading = some r') :
    InPhase A offers small (s.acknowledge A) t r'.wanted r'.phase := by
  rcases r with ⟨wanted, phase, taken⟩
  have hidle : s.acknowledge A = s →
      InPhase A offers small (s.acknowledge A) t r'.wanted r'.phase := by
    intro hsame
    rw [hsame] at hr' ⊢
    cases hr.symm.trans hr'
    exact h
  cases phase with
  | waiting => exact hidle (by simp only [Display.acknowledge, hr])
  | property out value words => exact hidle (by simp only [Display.acknowledge, hr])
  | incremental out => exact hidle (by simp only [Display.acknowledge, hr])
  | acknowledging next =>
      cases next with
      | finish bytes =>
          have hends : wanted = .targets → wantedOf A bytes = none := by
            rintro rfl
            simpa only [follows, hr] using hfollows
          simp only [Display.acknowledge, hr] at hr'
          rw [finish_ends hends] at hr'
          cases hr'
      | more out =>
          rcases h with ⟨hstage, hq, hp, hfits, o, content, hgiven, hstreaming⟩
          rcases Option.ne_none_iff_exists'.1 hp with ⟨p, hp⟩
          rcases hstreaming.transfers with ⟨late, rest, htransfers, hwhole⟩
          simp only [Display.acknowledge, hr] at hr' ⊢
          cases hr'
          -- deleting the property lets the owner put the next chunk
          refine ⟨hstage, o, content, hgiven, .inl ⟨?_, hfits, hstreaming.streams,
            hstreaming.short, late.map fun t => { t with mayPut := true }, rest, ?_, hwhole⟩⟩
          · rw [deleteProperty_some hp]
            exact hq
          · rw [deleteProperty_some hp, htransfers, List.map_append]
            rfl

theorem InPhase.givesUp (hr' : s.giveUp.reading = some r') :
    InPhase A offers small s.giveUp t r'.wanted r'.phase := by
  revert hr'
  simp only [Display.giveUp]
  split
  · intro hr'
    rw [settle_reading] at hr'
    cases hr'
  · intro hr'
    rw [settle_reading] at hr'
    cases hr'
  · intro hr'
    cases hr.symm.trans hr'
    exact h

end Reads

end Handed

/-! ### Every run -/

/-- Every call that has returned was whole or refused, or was cut where what comes in chunks may be
too large, and a read under way gets what the owner that was asked has handed over. -/
structure Kept (small : Prop) (w : Watched) : Prop where
  returned : ∀ r ∈ w.returned, r.Whole A offers ∨ (¬ small ∧ r.Cut A offers)
  reading : ∀ r, w.display.reading = some r →
    InPhase A offers small w.display w.talk r.wanted r.phase

section Runs

variable {A : Atoms} {offers : Nat → Offer} {small : Prop} {w : Watched} {st : Step}

theorem limit_pos (wanted : Wanted) : 4 ≤ wanted.limit := by
  have htext : 4 ≤ X11Read.MAX_TEXT_BYTES := by decide
  cases wanted with
  | targets => exact htext
  | text target => exact htext
  | image => decide

/-- The watcher reports that the content was too large. -/
theorem refused_report {wanted : Wanted} {call : Wanted × Except Error Bytes}
    (hget : w.display.get =
      w.display.settle [] (.error (propertyError wanted none (.tooLarge wanted.limit)))) :
    (w.leaves A offers .get call).reported = [⟨.tooLarge wanted.limit, false⟩] := by
  simp [Watched.leaves, Display.step, hget, Display.settle, propertyError]

/-- It reports nothing of a chunk. -/
theorem cut_report {wanted : Wanted} {out : Bytes} {e : Error}
    {call : Wanted × Except Error Bytes}
    (hget : w.display.get =
      w.display.settle [] (.error (propertyError wanted (some out) e))) :
    (w.leaves A offers .get call).reported = [] := by
  simp [Watched.leaves, Display.step, hget, Display.settle, propertyError, exceeded]

/-- A call that returns is whole or refused, or cut. -/
theorem Kept.leaves {call : Wanted × Except Error Bytes} (h : Kept A offers small w)
    (hcall : returns A w.display st = some call) : 
    (w.leaves A offers st call).Whole A offers ∨
      (¬ small ∧ (w.leaves A offers st call).Cut A offers) := by
  cases st with
  | poll =>
      simp only [returns] at hcall
      split at hcall
      · rename_i wanted taken target rest hr hinbox
        split at hcall
        · rename_i htarget
          cases hcall
          have hphase : Waiting A offers small w.display w.talk wanted := h.reading _ hr
          have hheard : ¬ Silent (wanted.target A) w.display.inbox := by
            rw [hinbox, htarget]
            exact fun hsilent => hsilent.tail.1 false rfl
          cases hphase with
          | asked o late owner stage requests silent => exact absurd silent hheard
          | placed o content p late given stage answers property holds silent =>
              exact absurd silent hheard
          | notified o content p given stage property holds notified =>
              rw [hinbox, htarget] at notified
              rcases notified.tail with ⟨hsame, -⟩ | ⟨hother, -⟩
              · cases hsame
              · exact absurd rfl (hother false)
          | refused stage notified => exact .inl (.refused (decide_eq_true stage) rfl)
        · cases hcall
      · cases hcall
  | get =>
      cases hr : w.display.reading with
      | none => simp only [returns, hr] at hcall; cases hcall
      | some r =>
          have hphase := h.reading r hr
          rcases r with ⟨wanted, phase, taken⟩
          cases phase with
          | waiting => simp only [returns, hr] at hcall; cases hcall
          | acknowledging next => simp only [returns, hr] at hcall; cases hcall
          | incremental out => simp only [returns, hr] at hcall; cases hcall
          | property out value words =>
              cases out with
              | none =>
                  rcases hphase with ⟨-, -, o, content, p, hgiven, hp, hholds, hread⟩
                  rcases get_refused hr hp hread hcall with ⟨rfl, hget, hexceeds⟩
                  cases hholds with
                  | whole streams =>
                      -- in one property the content itself is too large
                      refine .inl (.tooLarge o content hgiven.owner hgiven.answer hexceeds rfl ?_)
                      exact refused_report hget
                  | announced p incr short streaming => exact absurd short (Nat.not_le.2 hexceeds)
              | some out =>
                  rcases hphase with ⟨-, -, o, content, chunk, hgiven, hput, hread⟩
                  have hread : ReadTo (Property.value ⟨o, false, chunk⟩) value words := hread
                  rcases get_refused hr hput.property hread hcall with ⟨rfl, hget, hexceeds⟩
                  -- in chunks the same is an error the watcher drops
                  rcases hput.exceeds hexceeds with ⟨hsmall, hlong⟩
                  refine .inr ⟨hsmall, rfl, ⟨o, content, hgiven.owner, hgiven.answer, hlong⟩,
                    rfl, ?_⟩
                  exact cut_report hget
  | acknowledge =>
      simp only [returns] at hcall
      split at hcall
      · rename_i wanted bytes taken hr
        cases hcall
        rcases h.reading _ hr with ⟨o, hgiven, hfits⟩
        exact .inl (.content o bytes hgiven.owner hgiven.answer hfits rfl)
      · cases hcall
  | giveUp =>
      simp only [returns] at hcall
      split at hcall
      · cases hcall
        exact .inl (.gaveUp _ rfl rfl)
      · cases hcall
        exact .inl (.gaveUp _ rfl rfl)
      · cases hcall
  | begins | takes | refuses | places | notifies | putsChunk => cases hcall

theorem follows_some {s : Display} {wanted : Wanted} (h : follows A s = some wanted) :
    ∃ list taken, s.reading = some ⟨.targets, .acknowledging (.finish list), taken⟩ ∧
      wantedOf A list = some wanted := by
  unfold follows at h
  split at h
  · rename_i list taken hr
    exact ⟨list, taken, hr, h⟩
  · cases h

/-- A step that asks for a conversion. -/
theorem asks_step (hcalm : w.Calm A st)
    (hconverts : converts A w.display st = true) (r : Reading)
    (hr : (w.display.step A offers st).reading = some r) :
    InPhase A offers small (w.display.step A offers st) (Talk.begin_ w.display.owner) r.wanted
      r.phase := by
  cases st with
  | begins =>
      have hnone : w.display.reading = none := Option.isNone_iff_eq_none.1 hconverts
      simp only [Display.step, hnone] at hr ⊢
      rw [X11Read.Display.convert_reading] at hr
      cases hr
      exact Waiting.begins (hcalm hnone)
  | acknowledge =>
      rcases Option.isSome_iff_exists.1 hconverts with ⟨wanted, hfollows⟩
      rcases follows_some hfollows with ⟨list, taken, hreading, hwanted⟩
      have hsilent : Silent (wanted.target A) w.display.inbox := hcalm wanted hfollows
      rcases (deleteProperty_frame (s := w.display)) with ⟨howner, -, hinbox⟩
      simp only [Display.step, Display.acknowledge, hreading] at hr ⊢
      simp only [finish_targets, hwanted] at hr ⊢
      rw [X11Read.Display.convert_reading] at hr
      cases hr
      rw [← howner]
      exact Waiting.begins (hinbox.symm ▸ hsilent)
  | poll | get | giveUp | takes | refuses | places | notifies | putsChunk => cases hconverts

/-- Between reads nothing is read. -/
theorem idle_step (hnone : w.display.reading = none) (hconverts : converts A w.display st = false) :
    (w.display.step A offers st).reading = none := by
  cases st with
  | begins =>
      rw [converts, hnone] at hconverts
      cases hconverts
  | poll =>
      simp only [Display.step, Display.poll]
      split
      · exact hnone
      · simp only [hnone]
  | get => simp only [Display.step, Display.get, hnone]
  | acknowledge => simp only [Display.step, Display.acknowledge, hnone]
  | giveUp => simp only [Display.step, Display.giveUp, hnone]
  | takes owner => exact hnone
  | refuses i =>
      simp only [Display.step]
      split <;> exact hnone
  | places i chunks => exact X11Read.Display.places_frame.2.trans hnone
  | notifies i =>
      simp only [Display.step]
      split <;> exact hnone
  | putsChunk i => exact X11Read.Display.putsChunk_frame.2.trans hnone

/-- A step that asks for none. -/
theorem Kept.goes_on (h : Kept A offers small w) (hcalm : w.Calm A st)
    (hsmall : small → w.Small A offers st)
    (hconverts : converts A w.display st = false) (r : Reading)
    (hr : (w.display.step A offers st).reading = some r) :
    InPhase A offers small (w.display.step A offers st) (w.talk.hears A offers w.display st)
      r.wanted r.phase := by
  cases hreading : w.display.reading with
  | none =>
      rw [idle_step hreading hconverts] at hr
      cases hr
  | some r₀ =>
      have hphase := h.reading r₀ hreading
      -- what other clients do leaves the read where it is
      have hother : ∀ {s' : Display}, s'.reading = w.display.reading → s'.reading = some r →
          r = r₀ := by
        intro s' hsame hr'
        rw [hsame, hreading] at hr'
        exact (Option.some.inj hr').symm
      cases st with
      | begins =>
          have hsame : w.display.step A offers .begins = w.display := by
            simp only [Display.step, hreading]
          rw [hsame] at hr ⊢
          cases hother rfl hr
          exact hphase
      | poll => exact hphase.polls hreading hr
      | get => exact hphase.gets hreading hr
      | acknowledge =>
          have hfollows : follows A w.display = none :=
            Option.isNone_iff_eq_none.1 (Option.isSome_eq_false_iff.1 hconverts)
          exact hphase.acknowledges hreading hfollows hr
      | giveUp => exact hphase.givesUp hreading hr
      | takes owner =>
          cases hother rfl hr
          exact hphase.takes owner
      | refuses i =>
          cases hother (by simp only [Display.step]; split <;> rfl) hr
          exact hphase.refuses hreading hcalm
      | places i chunks =>
          cases hother X11Read.Display.places_frame.2 hr
          exact hphase.places hreading hcalm hsmall (limit_pos _)
      | notifies i =>
          cases hother (by simp only [Display.step]; split <;> rfl) hr
          exact hphase.notifies hreading hcalm
      | putsChunk i =>
          cases hother X11Read.Display.putsChunk_frame.2 hr
          exact hphase.putsChunk hreading hcalm

theorem Kept.step (h : Kept A offers small w) (hcalm : w.Calm A st)
    (hsmall : small → w.Small A offers st) : Kept A offers small (w.step A offers st) where
  returned := by
    intro r hr
    rcases List.mem_append.1 hr with hold | hnew
    · exact h.returned r hold
    · rcases List.mem_map.1 hnew with ⟨call, hcall, rfl⟩
      exact h.leaves (Option.mem_toList.1 hcall)
  reading := by
    intro r hr
    have htalk : (w.step A offers st).talk =
        if converts A w.display st then Talk.begin_ w.display.owner
        else w.talk.hears A offers w.display st := rfl
    rw [htalk]
    cases hconverts : converts A w.display st with
    | true => exact asks_step hcalm hconverts r hr
    | false => exact h.goes_on hcalm hsmall hconverts r hr

theorem Kept.start : Kept A offers small Watched.start :=
  ⟨(fun _ hnil => by cases hnil), fun _ hnone => by cases hnone⟩

theorem Kept.run {c : Watched → Step → Prop} {steps : List Step}
    (hcalm : ∀ w st, c w st → w.Calm A st)
    (hsmall : ∀ w st, c w st → small → w.Small A offers st)
    (h : Runs.Along (Watched.step A offers) c Watched.start steps) :
    Kept A offers small (Watched.start.run A offers steps) :=
  Runs.invariant (Watched.step A offers) _
    (fun w st hw hc => hw.step (hcalm w st hc) (hsmall w st hc)) steps Kept.start h

/-- `read_whole_property` comes to an end: the value has been read, or the next request is refused
for what it would bring. -/
theorem gets_end {wanted : Wanted} {out : Option Bytes} {value : Bytes} {words : Nat}
    {taken : List (Nat × Bytes)} {p : Property}
    (hr : w.display.reading = some ⟨wanted, .property out value words, taken⟩)
    (hproperty : w.display.property = some p) (hread : ReadTo p.value value words) :
    ∃ n w', w.run A offers (List.replicate n .get) = w' ∧ w'.talk = w.talk ∧
      w'.returned = w.returned ∧ w'.display.property = some p ∧
      ((∃ taken, w'.display.reading =
          some ⟨wanted, .acknowledging (next out p.incr p.value), taken⟩ ∧
          p.value.length ≤ wanted.limit - (out.getD []).length) ∨
        ∃ value words taken call, w'.display.reading =
            some ⟨wanted, .property out value words, taken⟩ ∧ ReadTo p.value value words ∧
          returns A w'.display .get = some call) := by
  -- what is left of the value gets shorter
  induction hleft : p.value.length - 4 * words using Nat.strong_induction_on
    generalizing w value words taken with
  | h left ih =>
      cases hcall : returns A w.display .get with
      | some call =>
          exact ⟨0, w, rfl, rfl, rfl, hproperty, .inr ⟨value, words, taken, call, hr, hread, hcall⟩⟩
      | none =>
          -- one request more, after which there is less to read
          have hstep : w.step A offers .get = ⟨w.display.get, w.talk, w.returned⟩ := by
            simp only [Watched.step, hcall, converts, Talk.hears, Display.step]
            simp
          have hgoes : ∃ r', (w.display.step A offers .get).reading = some r' ∧
              r'.wanted = wanted := step_goes_on hcall hr
          rcases hgoes with ⟨⟨wanted', phase, taken'⟩, hr', -⟩
          rcases get_reads hr hproperty hread hr' with ⟨hget, hwanted, hends | hmore⟩
          · rcases hends with ⟨hphase, hfits⟩
            cases hwanted
            cases hphase
            exact ⟨1, _, hstep, rfl, rfl, hget ▸ hproperty, .inl ⟨taken', hr', hfits⟩⟩
          · rcases hmore with ⟨value', words', hphase, hread', hlonger⟩
            cases hwanted
            cases hphase
            have hshorter : p.value.length - 4 * words' < left := by
              have hle := hread'.2
              omega
            have hproperty' : (w.step A offers .get).display.property = some p := by
              rw [hstep]
              exact hget ▸ hproperty
            have hr'' : (w.step A offers .get).display.reading =
                some ⟨wanted', .property out value' words', taken'⟩ := by
              rw [hstep]
              exact hr'
            rcases ih _ hshorter hr'' hproperty' hread' rfl with
              ⟨n, w', hrun, htalk, hreturned, hrest⟩
            refine ⟨n + 1, w', hrun, htalk.trans ?_, hreturned.trans ?_, hrest⟩
            · rw [hstep]
            · rw [hstep]

/-- Whatever is too large and comes in chunks is cut, and nothing else happens to a read. -/
theorem whole_or_cut {steps : List Step}
    (h : Runs.Along (Watched.step A offers) (Watched.Calm A) Watched.start steps) :
    ∀ r ∈ (Watched.start.run A offers steps).returned, r.Whole A offers ∨ r.Cut A offers := by
  intro r hr
  have hkept : Kept A offers False (Watched.start.run A offers steps) :=
    Kept.run (fun _ _ hc => hc) (fun _ _ _ hfalse => hfalse.elim) h
  exact (hkept.returned r hr).imp_right And.right

theorem Returned.Cut.not_whole {r : Returned} (h : r.Cut A offers) : ¬ r.Whole A offers := by
  intro hwhole
  cases hwhole with
  | gaveUp detail waited result => cases h.waited.symm.trans waited
  | refused byOwner result => cases h.result.symm.trans result
  | content o content owner answer fits result => cases h.result.symm.trans result
  | tooLarge o content owner answer exceeds result reported => cases h.result.symm.trans result

/-- In every run without such a disturbance, a read is whole or refused. -/
theorem whole_or_refused {steps : List Step}
    (h : Runs.Along (Watched.step A offers) (Watched.Undisturbed A offers) Watched.start steps) :
    ∀ r ∈ (Watched.start.run A offers steps).returned, r.Whole A offers := by
  intro r hr
  have hkept : Kept A offers True (Watched.start.run A offers steps) :=
    Kept.run (fun _ _ hc => hc.1) (fun _ _ hc _ => hc.2) h
  exact (hkept.returned r hr).resolve_right fun hcut => hcut.1 trivial

theorem run_append {steps more : List Step} :
    w.run A offers (steps ++ more) = (w.run A offers steps).run A offers more :=
  List.foldl_append

end Runs

/-! ### Runs of two applications -/

def atoms : Atoms where
  TARGETS := 1
  UTF8_STRING := 2
  TEXT_PLAIN_UTF8 := 3
  TEXT_PLAIN := 4
  IMAGE_PNG := 5
  KDE_PASSWORD_HINT := 6

/-- An application that offers a text. -/
def textOffer (text : Bytes) : Offer :=
  ⟨[2], fun target => if target = 2 then some text else none⟩

/-- The target list is read, and the text asked for. -/
def listRead : List Step :=
  [.begins, .places 0 none, .notifies 0, .poll, .poll, .poll, .get, .acknowledge]

/-- The text is announced in chunks. -/
def announced (chunks : List Bytes) : List Step :=
  [.places 0 (some chunks), .notifies 0, .poll, .poll, .get, .acknowledge]

def chunkRead (transfer : Nat) : List Step :=
  [.putsChunk transfer, .poll, .get, .acknowledge]

/-- The first application is asked for its list, and gives no answer in time; it writes it while the
second is asked for its own, and notifies it while the second is asked for its text. -/
def lateRun : List Step :=
  [.takes (some 0), .begins, .giveUp, .takes (some 1), .begins, .places 0 none, .places 0 none,
    .notifies 1, .poll, .poll, .poll, .poll, .poll, .get, .acknowledge, .notifies 0,
    .places 0 (some [[98], [99]]), .notifies 0, .poll, .poll, .poll, .get, .acknowledge] ++
  chunkRead 0 ++ chunkRead 0 ++ chunkRead 0

def twoOffers (o : Nat) : Offer :=
  textOffer (if o = 0 then [97] else [98, 99])

set_option maxRecDepth 4000 in
theorem whole_or_refused_late :
    (Watched.start.run atoms twoOffers lateRun).returned.map
          (fun r => (r.owner, r.result.toOption)) =
        [(some 0, none), (some 1, some [2, 0, 0, 0]), (some 1, some [98, 99])] ∧
      ∀ r ∈ (Watched.start.run atoms twoOffers lateRun).returned, r.Whole atoms twoOffers :=
  ⟨rfl, whole_or_refused (by decide)⟩

/-- A chunk of the first application's text, which was given up, comes between those of the
second's. -/
def interleavedRun : List Step :=
  .takes (some 0) :: listRead ++ announced [[97], [98]] ++ [.giveUp, .takes (some 1)] ++
    listRead ++ announced [[120], [121]] ++ chunkRead 1 ++ chunkRead 0 ++ chunkRead 1 ++ chunkRead 1

def twoTexts (o : Nat) : Offer :=
  textOffer (if o = 0 then [97, 98] else [120, 121])

set_option maxRecDepth 4000 in
theorem interleaved :
    (Watched.start.run atoms twoTexts interleavedRun).returned.getLast? =
      some ⟨some 1, false, .text 2, false, .ok [120, 97, 121], [⟨.text "xay", false⟩]⟩ :=
  rfl

/-- A text that may not be read. -/
def longText : Bytes :=
  List.replicate (X11Read.MAX_TEXT_BYTES + 1) 97

def longOffer (_ : Nat) : Offer :=
  textOffer longText

theorem longText_length : longText.length = X11Read.MAX_TEXT_BYTES + 1 :=
  List.length_replicate

/-- The text has been announced. -/
def longAnnounced : Watched where
  display :=
    { owner := some 0, requests := [], placed := [(0, 2)], transfers := [⟨0, [longText], false⟩]
      property := some ⟨0, true, (beBytes 4 longText.length).reverse⟩, inbox := [.propertyNotify]
      reading := some ⟨.text 2, .waiting, []⟩, reports := [] }
  talk := ⟨some 0, .placed, true⟩
  returned := [⟨some 0, false, .targets, false, .ok [2, 0, 0, 0], []⟩]

/-- It is to come in one chunk. -/
theorem long_announced : Watched.start.run atoms longOffer
    (.takes (some 0) :: listRead ++ [.places 0 (some [longText])]) = longAnnounced := by
  have hread : Watched.start.run atoms longOffer (.takes (some 0) :: listRead) =
      ⟨⟨some 0, [(0, 2)], [], [], none, [], some ⟨.text 2, .waiting, []⟩, []⟩,
        ⟨some 0, .asked, false⟩, [⟨some 0, false, .targets, false, .ok [2, 0, 0, 0], []⟩]⟩ := rfl
  have hvalid : [longText].flatten = longText ∧ [] ∉ [longText] := by
    refine ⟨List.append_nil _, fun hmem => ?_⟩
    have hnil := congrArg List.length (List.mem_singleton.1 hmem)
    rw [longText_length] at hnil
    cases hnil
  rw [run_append, hread]
  have hplaces : Display.places atoms longOffer
      ⟨some 0, [(0, 2)], [], [], none, [], some ⟨.text 2, .waiting, []⟩, []⟩ 0 (some [longText]) =
      longAnnounced.display := by
    have hanswer : (longOffer 0).answer atoms 2 = some longText := rfl
    simp only [Display.places, List.getElem?_cons_zero, hanswer, if_pos hvalid]
    rfl
  simp only [Watched.run, List.foldl_cons, List.foldl_nil, Watched.step, Display.step, Talk.hears,
    hplaces]
  rfl

/-- The chunk is in the property, and is being read. -/
theorem long_put : ∃ w, longAnnounced.run atoms longOffer
      [.notifies 0, .poll, .poll, .get, .acknowledge, .putsChunk 0, .poll] = w ∧
    w.display.reading = some ⟨.text 2, .property (some []) [] 0, []⟩ ∧
    w.display.property = some ⟨0, false, longText⟩ ∧ w.talk.owner = some 0 :=
  ⟨_, rfl, rfl, rfl, rfl⟩

/-- What is too large is not reported when it comes in chunks. -/
theorem long_cut : ∃ steps, ∃ r ∈ (Watched.start.run atoms longOffer steps).returned,
    r.Cut atoms longOffer := by
  rcases long_put with ⟨w, hput, hr, hproperty, howner⟩
  have hread : ReadTo longText [] 0 := ⟨rfl, Nat.zero_le _⟩
  have hends := @gets_end atoms longOffer w _ _ _ _ _ ⟨0, false, longText⟩ hr hproperty hread
  rcases hends with ⟨n, w', hrun, htalk, -, hproperty', ⟨taken, -, hfits⟩ |
    ⟨value, words, taken, call, hr', hread', hcall⟩⟩
  · -- the whole text may not be read
    have hle : longText.length ≤ X11Read.MAX_TEXT_BYTES := hfits
    rw [longText_length] at hle
    exact absurd hle (Nat.not_succ_le_self _)
  · rcases get_refused hr' hproperty' hread' hcall with ⟨rfl, hget, -⟩
    have hlong : X11Read.MAX_TEXT_BYTES < longText.length := by
      rw [longText_length]
      exact Nat.lt_succ_self _
    refine ⟨.takes (some 0) :: listRead ++ [.places 0 (some [longText])] ++
      [.notifies 0, .poll, .poll, .get, .acknowledge, .putsChunk 0, .poll] ++
      List.replicate n .get ++ [.get],
      w'.leaves atoms longOffer .get (.text 2, .error (exceeded (Wanted.limit (.text 2)))), ?_, rfl,
      ⟨0, longText, ?_, rfl, hlong⟩, rfl, ?_⟩
    · rw [run_append, run_append, run_append, long_announced, hput, hrun]
      refine List.mem_append_right _ (List.mem_map_of_mem (Option.mem_toList.2 ?_))
      exact hcall
    · rw [← howner, ← htalk]
      rfl
    · exact cut_report hget

theorem text_mixed_or_unreported :
    (¬ ∀ r ∈ (Watched.start.run atoms twoTexts interleavedRun).returned,
      r.Whole atoms twoTexts) ∧
    ¬ ∀ steps, ∀ r ∈ (Watched.start.run atoms longOffer steps).returned,
      r.Whole atoms longOffer := by
  constructor
  · intro hwhole
    have hlast := hwhole _ (List.mem_of_getLast? interleaved)
    cases hlast with
    | gaveUp detail waited => cases waited
    | refused byOwner result => cases byOwner
    | content o content owner answer fits result =>
        cases owner
        cases answer
        cases result
    | tooLarge o content owner answer exceeds result => cases result
  · intro hwhole
    rcases long_cut with ⟨steps, r, hr, hcut⟩
    exact hcut.not_whole (hwhole steps r hr)

end X11Whole
end Clipboard
end Asli
