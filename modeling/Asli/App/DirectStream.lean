import Asli.App.Direct
import Asli.Crypto.Stream
import Asli.Logic.Numbered
import Asli.Logic.Runs

/-!
# DirectStream — the threads of a direct transfer over a network that is not trusted

`Direct` has the threads that serve and fetch a file, each step a call of the transfers.  Here they
hold the streams of `asli-crypto`, and whatever bytes the network delivers are what they read.

* `stream_integrity` — what an end opens is a prefix of what the other end sealed, and no nonce is
  used twice under one key.
-/

namespace Asli
namespace App

open Logic Logic.Numbered
open Crypto (Primitives OfferId Offer AckState Key Nonce Salt Side Stream)

/-! ## What goes over the wire -/

/-- Largest frame other than a piece. -/
def SMALL_FRAME : Nat := 64

/-- Largest frame a receiver reads. -/
def PIECE_FRAME : Nat :=
  Crypto.CHUNK_BYTES + Crypto.FRAME_OVERHEAD

/-- `read_frame`, of the bytes that come in before a read gives up. -/
def readFrame (max : Nat) (input : Bytes) : Option Bytes :=
  if input.length < 4 then none
  else
    let len := ofBe (input.take 4)
    if len > max then none
    else
      let rest := input.drop 4
      if rest.length < len then none else some (rest.take len)

/-- One direction of a connection: whose frames, under which key and salt, for which offer. -/
@[ext] structure Channel where
  side : Side
  key : Key
  salt : Salt
  offerId : OfferId
  deriving DecidableEq

/-- The other direction. -/
def Channel.peer (ch : Channel) : Channel :=
  { ch with side := ch.side.other }

/-- What the cipher was called with. -/
structure Call where
  key : Key
  nonce : Nonce
  plaintext : Bytes
  aad : Bytes
  deriving DecidableEq

/-- The log of all connections: the ends there have been, the frames sealed, and the frames opened,
each by the end that opened it. -/
structure Wire where
  streams : List Channel
  sealed : List (Entry Channel Call)
  opened : List (Nat × Bytes)

namespace Wire

def empty : Wire := ⟨[], [], []⟩

/-- What one end has opened, in order. -/
def openedOn (w : Wire) (n : Nat) : List Bytes :=
  (w.opened.filter fun x => decide (x.1 = n)).map Prod.snd

/-- What was sealed in one direction, in order. -/
def sealedBy (w : Wire) (ch : Channel) : List Bytes :=
  (under w.sealed ch).map fun e => e.message.plaintext

end Wire

/-- What a step of a thread adds to the log. -/
inductive Effect where
  | connected (ch : Channel)
  | sealed (e : Entry Channel Call)
  | opened (n : Nat) (plaintext : Bytes)

def Wire.note (w : Wire) : Effect → Wire
  | .connected ch => { w with streams := w.streams ++ [ch] }
  | .sealed e => { w with sealed := w.sealed ++ [e] }
  | .opened n plaintext => { w with opened := w.opened ++ [(n, plaintext)] }

/-! ## Connections -/

/-- A connection a thread holds: its place among the ends there have been, whose it is, and its
stream. -/
structure Conn where
  number : Nat
  channel : Channel
  stream : Stream

/-- What a read gives: nothing, a frame that does not open, or what it opens to. -/
inductive Received where
  | nothing
  | damaged
  | opened (plaintext : Bytes)

namespace Conn

def new (P : Primitives) (number : Nat) (channel : Channel) : Conn where
  number := number
  channel := channel
  stream := Stream.new P channel.key channel.salt channel.offerId channel.side

/-- The next frame is sealed, and it is logged what the cipher was called with. -/
def seal_ (P : Primitives) (c : Conn) (plaintext : Bytes) : Conn × Option (Entry Channel Call) :=
  let r := c.stream.seal_ P plaintext
  ({ c with stream := r.1 },
    match r.2 with
    | .ok _ => some {
        label := c.channel
        number := c.stream.sent.toNat
        message := {
          key := c.stream.key
          nonce := Stream.nonce c.stream.me c.stream.sent
          plaintext := plaintext
          aad := c.stream.aad } }
    | .error _ => none)

/-- A frame is read and opened. -/
def read (P : Primitives) (c : Conn) (max : Nat) (input : Bytes) : Conn × Received :=
  match readFrame max input with
  | none => (c, .nothing)
  | some frame =>
      let r := c.stream.open_ P frame
      ({ c with stream := r.1 },
        match r.2 with
        | .ok plaintext => .opened plaintext
        | .error _ => .damaged)

end Conn

def noteSealed : Option (Entry Channel Call) → List Effect
  | some e => [.sealed e]
  | none => []

def noteOpened (n : Nat) : Received → List Effect
  | .opened plaintext => [.opened n plaintext]
  | _ => []

/-! ## The sender's thread -/

/-- A thread of `serve`: the offer it waits for, the key made for it, where it stands, and the
connection it holds.  While it listens, a connection is one that has yet to say hello. -/
structure ServeThread where
  id : OfferId
  key : Key
  place : Serving
  conn : Option Conn

/-- What the thread meets.  The salt and every frame are what the network delivers. -/
inductive ServeIo where
  | stopListening
  | connected (salt : Salt)
  | hello (input : Bytes) (now : Instant)
  | piece (data : Except String Bytes) (wrote : Bool)
  | progress (now : Instant)
  | lastWord (input : Bytes)

/-- The last word of an opened frame. -/
def lastWordOf : Received → Option AckState
  | .opened [1] => some .done
  | .opened [2] => some .corrupt
  | _ => none

/-- One step of the thread.  What it asks of the transfers is answered as they are then. -/
def ServeThread.step (P : Primitives) (number : Nat) (s : State) (t : ServeThread) :
    ServeIo → ServeThread × List Effect
  | .stopListening =>
      match t.conn with
      | none => ({ t with place := (Serving.step t.id s t.place .stopListening).2.1 }, [])
      | some _ => (t, [])
  | .connected salt =>
      match t.place, t.conn with
      | .listening, none =>
          let channel : Channel := ⟨.sender, t.key, salt, t.id⟩
          ({ t with conn := some (Conn.new P number channel) }, [.connected channel])
      | _, _ => (t, [])
  | .hello input now =>
      match t.place, t.conn with
      | .listening, some c =>
          let r := c.read P SMALL_FRAME input
          match r.2 with
          | .opened plaintext =>
              if Stream.isHello plaintext t.id then
                ({ t with
                    place := (Serving.step t.id s .listening (.greeted now)).2.1
                    conn := some r.1 },
                  [.opened c.number plaintext])
              -- a stranger: back to listening
              else ({ t with conn := none }, [.opened c.number plaintext])
          | _ => ({ t with conn := none }, [])
      | _, _ => (t, [])
  | .piece (.error err) wrote =>
      ({ t with place := (Serving.step t.id s t.place (.piece (.error err) wrote)).2.1 }, [])
  | .piece (.ok data) wrote =>
      match t.place, t.conn with
      | .sending offer index, some c =>
          if data.length ≠ pieceLen offer index then (t, [])
          else
            let r := c.seal_ P data
            ({ t with
                place := (Serving.step t.id s (.sending offer index)
                  (.piece (.ok data) (r.2.isSome && wrote))).2.1
                conn := some r.1 },
              noteSealed r.2)
      | _, _ => (t, [])
  | .progress now =>
      ({ t with place := (Serving.step t.id s t.place (.progress now)).2.1 }, [])
  | .lastWord input =>
      match t.place, t.conn with
      | .confirming offer, some c =>
          let r := c.read P SMALL_FRAME input
          ({ t with
              place := (Serving.step t.id s (.confirming offer) (.lastWord (lastWordOf r.2))).2.1
              conn := some r.1 },
            noteOpened c.number r.2)
      | _, _ => (t, [])

/-! ## The receiver's thread -/

/-- A thread of `fetch`.  While it reaches, a connection is one it has said hello on. -/
structure FetchThread where
  id : OfferId
  key : Key
  place : Fetching
  conn : Option Conn

/-- What the thread meets: no address answers, or one does, with a salt drawn for it. -/
inductive FetchIo where
  | unreached
  | reached (salt : Salt) (connected wrote : Bool)
  | first (input : Bytes)
  | ask (room : Bool)
  | begins (now : Instant)
  | piece (io : FileDraws) (now : Instant)
  | next (input : Bytes)

/-- The last word, as a frame. -/
def wordFrame (ended : AckState) : Bytes :=
  [if ended = .done then 1 else 2]

def FetchThread.step (P : Primitives) (number : Nat) (s : State) (t : FetchThread) :
    FetchIo → FetchThread × List Effect
  | .unreached =>
      match t.conn with
      | none => ({ t with place := (Fetching.step P t.id s t.place .unreached).2.1 }, [])
      | some _ => (t, [])
  | .reached salt connected wrote =>
      match t.place, t.conn with
      | .reaching, none =>
          let channel : Channel := ⟨.receiver, t.key, salt, t.id⟩
          if !connected then
            ({ t with place := (Fetching.step P t.id s .reaching .unreached).2.1 },
              [.connected channel])
          else
            let r := (Conn.new P number channel).seal_ P (Stream.hello t.id)
            if r.2.isSome && wrote then
              ({ t with conn := some r.1 }, .connected channel :: noteSealed r.2)
            else
              ({ t with place := (Fetching.step P t.id s .reaching .unreached).2.1 },
                .connected channel :: noteSealed r.2)
      | _, _ => (t, [])
  | .first input =>
      match t.place, t.conn with
      | .reaching, some c =>
          let r := c.read P PIECE_FRAME input
          match r.2 with
          | .opened plaintext =>
              ({ t with
                  place := (Fetching.step P t.id s .reaching (.first plaintext)).2.1
                  conn := some r.1 },
                [.opened c.number plaintext])
          | _ =>
              ({ t with
                  place := (Fetching.step P t.id s .reaching .unreached).2.1
                  conn := none }, [])
      | _, _ => (t, [])
  | .ask room => ({ t with place := (Fetching.step P t.id s t.place (.ask room)).2.1 }, [])
  | .begins now => ({ t with place := (Fetching.step P t.id s t.place (.begins now)).2.1 }, [])
  | .piece io now =>
      let kept := Fetching.step P t.id s t.place (.piece io now)
      match kept.2.2.2, t.conn with
      | some ended, some c =>
          let r := c.seal_ P (wordFrame ended)
          ({ t with place := kept.2.1, conn := some r.1 }, noteSealed r.2)
      | _, _ => ({ t with place := kept.2.1 }, [])
  | .next input =>
      match t.place, t.conn with
      | .reading, some c =>
          let r := c.read P PIECE_FRAME input
          match r.2 with
          | .opened plaintext =>
              ({ t with
                  place := (Fetching.step P t.id s .reading (.next plaintext)).2.1
                  conn := some r.1 },
                [.opened c.number plaintext])
          | .nothing =>
              ({ t with place := (Fetching.step P t.id s .reading
                  (.broke "the other device stopped sending.")).2.1 }, [])
          | .damaged =>
              ({ t with place := (Fetching.step P t.id s .reading
                  (.broke "a piece arrived damaged.")).2.1 }, [])
      | _, _ => (t, [])

/-! ## All transfers between two devices -/

/-- The threads of both devices, and the log of their connections. -/
structure World where
  serves : List ServeThread
  fetches : List FetchThread
  wire : Wire

def World.empty : World := ⟨[], [], Wire.empty⟩

/-- An offer is made, with a key drawn for it; the device it is for accepts it; or a thread takes a
step, the transfers of its device being what they are then. -/
inductive Happening where
  | offered (id : OfferId) (key : Key)
  | accepted (i : Nat)
  | serve (i : Nat) (s : State) (e : ServeIo)
  | fetch (j : Nat) (s : State) (e : FetchIo)

def World.step (P : Primitives) (w : World) : Happening → World
  | .offered id key => { w with serves := w.serves ++ [⟨id, key, .listening, none⟩] }
  | .accepted i =>
      match w.serves[i]? with
      | none => w
      | some t => { w with fetches := w.fetches ++ [⟨t.id, t.key, .reaching, none⟩] }
  | .serve i s e =>
      match w.serves[i]? with
      | none => w
      | some t =>
          let r := t.step P w.wire.streams.length s e
          { w with serves := w.serves.set i r.1, wire := r.2.foldl Wire.note w.wire }
  | .fetch j s e =>
      match w.fetches[j]? with
      | none => w
      | some t =>
          let r := t.step P w.wire.streams.length s e
          { w with fetches := w.fetches.set j r.1, wire := r.2.foldl Wire.note w.wire }

/-! ## Ideal cryptography -/

/-- The read a step makes: on which connection, up to which length, of what the network delivers. -/
def World.reads (w : World) : Happening → Option (Conn × Nat × Bytes)
  | .serve i _ (.hello input _) | .serve i _ (.lastWord input) =>
      (w.serves[i]?.bind ServeThread.conn).map fun c => (c, SMALL_FRAME, input)
  | .fetch j _ (.first input) | .fetch j _ (.next input) =>
      (w.fetches[j]?.bind FetchThread.conn).map fun c => (c, PIECE_FRAME, input)
  | _ => none

/-- The end a step makes, when it makes one. -/
def World.connects (w : World) : Happening → Option Channel
  | .serve i _ (.connected salt) => w.serves[i]?.map fun t => ⟨.sender, t.key, salt, t.id⟩
  | .fetch j _ (.reached salt _ _) => w.fetches[j]?.map fun t => ⟨.receiver, t.key, salt, t.id⟩
  | _ => none

/-- The keys of two ends differ unless they come from the same transfer key and salt. -/
def NoCollision (P : Primitives) (a b : Channel) : Prop :=
  Stream.deriveKey P a.key a.salt = Stream.deriveKey P b.key b.salt →
      a.key = b.key ∧ a.salt = b.salt

/-- Draws do not repeat, derived keys do not collide, and bytes that open are a frame that was
sealed before, under the same key, nonce and associated data. -/
structure Ideal (P : Primitives) (w : World) (h : Happening) : Prop where
  freshKey : ∀ id key, h = .offered id key → ∀ t ∈ w.serves, t.key ≠ key
  freshSalt : ∀ j s salt connected wrote, h = .fetch j s (.reached salt connected wrote) →
    ∀ ch ∈ w.wire.streams, ch.side = .receiver → ch.salt ≠ salt
  derived : ∀ ch, w.connects h = some ch → ∀ other ∈ w.wire.streams, NoCollision P other ch
  unforged : ∀ c max input frame plaintext, w.reads h = some (c, max, input) →
    readFrame max input = some frame →
    P.aeadDecrypt c.stream.key (Stream.nonce c.stream.me.other c.stream.received) frame
      c.stream.aad = some plaintext →
    ∃ e ∈ w.wire.sealed, e.message = {
      key := c.stream.key
      nonce := Stream.nonce c.stream.me.other c.stream.received
      plaintext := plaintext
      aad := c.stream.aad }

/-! ## The log -/

namespace Wire

variable {P : Primitives} {w : Wire}

/-- A frame was sealed on an end that is in the log, under its key, with its number as the nonce. -/
structure Sealed (P : Primitives) (w : Wire) (e : Entry Channel Call) : Prop where
  known : e.label ∈ w.streams
  key : e.message.key = Stream.deriveKey P e.label.key e.label.salt
  nonce : e.message.nonce = Stream.nonce e.label.side (UInt64.ofNat e.number)
  aad : e.message.aad = Stream.aadOf e.label.offerId

/-- What holds of the log: every direction counts its frames, few enough that the count does not
wrap, no key meets a nonce twice, and what an end opened is what the other sealed, in order. -/
structure Ok (P : Primitives) (w : Wire) : Prop where
  counted : Counted w.sealed
  frames : ∀ e ∈ w.sealed, Sealed P w e
  bounded : ∀ ch, (under w.sealed ch).length < 2 ^ 32
  distinct : (w.sealed.map fun e => (e.message.key, e.message.nonce)).Nodup
  inOrder : ∀ n ch, w.streams[n]? = some ch → w.openedOn n <+: w.sealedBy ch.peer
  opened : ∀ x ∈ w.opened, x.1 < w.streams.length
  derived : ∀ a ∈ w.streams, ∀ b ∈ w.streams, NoCollision P a b
  offers : ∀ a ∈ w.streams, ∀ b ∈ w.streams, a.key = b.key → a.offerId = b.offerId

theorem ok_empty : Ok P Wire.empty where
  counted := counted_nil
  frames := fun e he => nomatch he
  bounded := fun ch => by
    rw [Wire.empty, under_nil]
    decide
  distinct := List.nodup_nil
  inOrder := fun n ch h => nomatch h
  opened := fun x hx => nomatch hx
  derived := fun a ha => nomatch ha
  offers := fun a ha => nomatch ha

theorem openedOn_append_same (n : Nat) (m : Bytes) :
    (w.note (.opened n m)).openedOn n = w.openedOn n ++ [m] := by
  simp [note, openedOn]

theorem openedOn_append_other {n k : Nat} (m : Bytes) (h : n ≠ k) :
    (w.note (.opened n m)).openedOn k = w.openedOn k := by
  simp [note, openedOn, h]

/-- An end that is not in the log has opened nothing. -/
theorem Ok.openedOn_new (h : Ok P w) : w.openedOn w.streams.length = [] := by
  rw [openedOn, List.map_eq_nil_iff, List.filter_eq_nil_iff]
  intro x hx
  rw [decide_eq_true_iff]
  exact Nat.ne_of_lt (h.opened x hx)

/-- Another end joins. -/
theorem Ok.connect (h : Ok P w) {ch : Channel} (hderived : ∀ a ∈ w.streams, NoCollision P a ch)
    (hoffers : ∀ a ∈ w.streams, a.key = ch.key → a.offerId = ch.offerId) :
    Ok P (w.note (.connected ch)) where
  counted := h.counted
  frames := fun e he => {
    known := List.mem_append_left _ (h.frames e he).known
    key := (h.frames e he).key
    nonce := (h.frames e he).nonce
    aad := (h.frames e he).aad }
  bounded := h.bounded
  distinct := h.distinct
  inOrder := fun n other hn => by
    by_cases hlast : n < w.streams.length
    · rw [note, List.getElem?_append_left hlast] at hn
      exact h.inOrder n other hn
    · -- the new end has opened nothing
      have hle : n < (w.streams ++ [ch]).length := (List.getElem?_eq_some_iff.1 hn).1
      rw [List.length_append, List.length_singleton] at hle
      have heq : n = w.streams.length := by omega
      have hnone : (w.note (.connected ch)).openedOn n = [] := by
        rw [heq]
        exact h.openedOn_new
      rw [hnone]
      exact List.nil_prefix
  opened := fun x hx => by
    rw [note, List.length_append]
    exact Nat.lt_add_right _ (h.opened x hx)
  derived := fun a ha b hb => by
    rcases List.mem_append.1 ha with ha | ha
    · rcases List.mem_append.1 hb with hb | hb
      · exact h.derived a ha b hb
      · rw [List.mem_singleton.1 hb]
        exact hderived a ha
    · rw [List.mem_singleton.1 ha]
      rcases List.mem_append.1 hb with hb | hb
      · intro heq
        rcases hderived b hb heq.symm with ⟨hkey, hsalt⟩
        exact ⟨hkey.symm, hsalt.symm⟩
      · rw [List.mem_singleton.1 hb]
        exact fun _ => ⟨rfl, rfl⟩
  offers := fun a ha b hb hkey => by
    rcases List.mem_append.1 ha with ha | ha
    · rcases List.mem_append.1 hb with hb | hb
      · exact h.offers a ha b hb hkey
      · rw [List.mem_singleton.1 hb] at hkey ⊢
        exact hoffers a ha hkey
    · rw [List.mem_singleton.1 ha] at hkey ⊢
      rcases List.mem_append.1 hb with hb | hb
      · exact (hoffers b hb hkey.symm).symm
      · rw [List.mem_singleton.1 hb]

theorem Ok.number_small (h : Ok P w) {e : Entry Channel Call} (he : e ∈ w.sealed) :
    (UInt64.ofNat e.number).toNat = e.number := by
  have hlt := h.counted.number_lt he
  have hbound := h.bounded e.label
  exact UInt64.toNat_ofNat_of_lt' (by rw [UInt64.size]; omega)

/-- The next frame of a direction is sealed. -/
theorem Ok.seal_ (h : Ok P w) {e : Entry Channel Call} (he : Sealed P w e)
    (hnumber : e.number = (under w.sealed e.label).length)
    (hroom : (under w.sealed e.label).length + 1 < 2 ^ 32) : Ok P (w.note (.sealed e)) where
  counted := h.counted.append hnumber
  frames := fun e' he' => by
    rcases List.mem_append.1 he' with he' | he'
    · exact ⟨(h.frames e' he').known, (h.frames e' he').key, (h.frames e' he').nonce,
        (h.frames e' he').aad⟩
    · rw [List.mem_singleton.1 he']
      exact ⟨he.known, he.key, he.nonce, he.aad⟩
  bounded := fun ch => by
    by_cases hch : e.label = ch
    · rw [note, under_append_same hch, List.length_append, List.length_singleton, ← hch]
      exact hroom
    · rw [note, under_append_other hch]
      exact h.bounded ch
  distinct := by
    rw [note, List.map_append, List.nodup_append]
    refine ⟨h.distinct, List.nodup_singleton _, ?_⟩
    rintro used hused used' hused' rfl
    rw [List.map_singleton, List.mem_singleton] at hused'
    rcases List.mem_map.1 hused with ⟨e', he', rfl⟩
    rcases Prod.mk.inj hused' with ⟨hkey, hnonce⟩
    have hframe := h.frames e' he'
    -- the nonce says side and number, the key says transfer key and salt, and so the offer
    rw [hframe.nonce, he.nonce] at hnonce
    rcases Stream.nonce_injective hnonce with ⟨hside, hcount⟩
    rw [hframe.key, he.key] at hkey
    rcases h.derived _ hframe.known _ he.known hkey with ⟨htransfer, hsalt⟩
    have hoffer := h.offers _ hframe.known _ he.known htransfer
    have hlabel : e'.label = e.label := Channel.ext hside htransfer hsalt hoffer
    have hsame : e'.number = e.number := by
      have hsmall : (UInt64.ofNat e.number).toNat = e.number :=
        UInt64.toNat_ofNat_of_lt' (by rw [UInt64.size, hnumber]; omega)
      rw [← h.number_small he', hcount, hsmall]
    exact h.counted.fresh hnumber he' hlabel hsame
  inOrder := fun n ch hn => prefix_grow (fun c : Call => c.plaintext) e (h.inOrder n ch hn)
  opened := h.opened
  derived := h.derived
  offers := h.offers

/-- A frame opens that was sealed under the key, nonce and associated data it is opened with. -/
theorem Ok.open_ (h : Ok P w) {n : Nat} {ch : Channel} (hn : w.streams[n]? = some ch)
    {plaintext : Bytes}
    (hmade : ∃ e ∈ w.sealed, e.message = {
      key := Stream.deriveKey P ch.key ch.salt
      nonce := Stream.nonce ch.side.other (UInt64.ofNat (w.openedOn n).length)
      plaintext := plaintext
      aad := Stream.aadOf ch.offerId }) : Ok P (w.note (.opened n plaintext)) where
  counted := h.counted
  frames := fun e he => ⟨(h.frames e he).known, (h.frames e he).key, (h.frames e he).nonce,
    (h.frames e he).aad⟩
  bounded := h.bounded
  distinct := h.distinct
  inOrder := fun k other hk => by
    have hk' : w.streams[k]? = some other := hk
    by_cases hnk : n = k
    · rw [← hnk, hn] at hk'
      cases hk'
      rw [← hnk, openedOn_append_same]
      rcases hmade with ⟨e, he, hcall⟩
      have hframe := h.frames e he
      have hbefore := h.inOrder n ch hn
      -- the frame is one of the other direction, and the next one
      have hkey := hframe.key
      have hnonce := hframe.nonce
      have haad := hframe.aad
      rw [hcall] at hkey hnonce haad
      rcases h.derived _ (List.mem_of_getElem? hn) _ hframe.known hkey with ⟨htransfer, hsalt⟩
      rcases Stream.nonce_injective hnonce with ⟨hside, hcount⟩
      have hoffer := Stream.aadOf_injective haad
      have hlabel : e.label = ch.peer :=
        Channel.ext hside.symm htransfer.symm hsalt.symm hoffer.symm
      have hlength : (w.openedOn n).length < 2 ^ 32 := by
        have hle := hbefore.length_le
        rw [sealedBy, List.length_map] at hle
        exact Nat.lt_of_le_of_lt hle (h.bounded ch.peer)
      have hnumber : e.number = (w.openedOn n).length := by
        rw [← h.number_small he, ← hcount,
          UInt64.toNat_ofNat_of_lt' (by rw [UInt64.size]; omega)]
      have hplain : plaintext = e.message.plaintext := by
        rw [hcall]
      rw [hplain]
      exact h.counted.prefix_append (fun c : Call => c.plaintext) hbefore he hlabel hnumber
    · rw [openedOn_append_other plaintext hnk]
      exact h.inOrder k other hk'
  opened := fun x hx => by
    rcases List.mem_append.1 hx with hx | hx
    · exact h.opened x hx
    · rw [List.mem_singleton.1 hx]
      exact (List.getElem?_eq_some_iff.1 hn).1
  derived := h.derived
  offers := h.offers

end Wire

/-! ## The threads -/

/-- A connection is in the log, its stream is the one its channel makes, and it counts what it
opened. -/
structure Holds (P : Primitives) (w : Wire) (c : Conn) : Prop where
  known : w.streams[c.number]? = some c.channel
  key : c.stream.key = Stream.deriveKey P c.channel.key c.channel.salt
  aad : c.stream.aad = Stream.aadOf c.channel.offerId
  me : c.stream.me = c.channel.side
  received : c.stream.received = UInt64.ofNat (w.openedOn c.number).length

/-- An effect of another thread than the one that holds a connection. -/
def Effect.Foreign (c : Conn) : Effect → Prop
  | .connected _ => True
  | .sealed e => e.label ≠ c.channel
  | .opened n _ => n ≠ c.number

section Foreign

variable {P : Primitives} {w : Wire} {c : Conn} {f : Effect}

theorem getElem?_note {n : Nat} {ch : Channel} (h : w.streams[n]? = some ch) (f : Effect) :
    (w.note f).streams[n]? = some ch := by
  cases f with
  | connected other =>
      rw [Wire.note, List.getElem?_append_left (List.getElem?_eq_some_iff.1 h).1]
      exact h
  | sealed e => exact h
  | opened k m => exact h

theorem Holds.note (h : Holds P w c) (hf : f.Foreign c) : Holds P (w.note f) c where
  known := getElem?_note h.known f
  key := h.key
  aad := h.aad
  me := h.me
  received := by
    cases f with
    | connected ch => exact h.received
    | sealed e => exact h.received
    | opened n m =>
        rw [Wire.openedOn_append_other m hf]
        exact h.received

theorem under_note (hf : f.Foreign c) :
    under (w.note f).sealed c.channel = under w.sealed c.channel := by
  cases f with
  | connected ch => rfl
  | sealed e => exact under_append_other hf
  | opened n m => rfl

end Foreign

/-- What holds of a thread that serves: while it listens nothing was sealed with its key, and while
it sends it has sealed the pieces so far and nothing else. -/
structure ServeOk (P : Primitives) (w : Wire) (t : ServeThread) : Prop where
  silent : t.place = .listening → ∀ e ∈ w.sealed, e.label.side = .sender → e.label.key ≠ t.key
  conn : ∀ c, t.conn = some c → Holds P w c ∧ c.channel.side = .sender ∧ c.channel.key = t.key ∧
    c.channel.offerId = t.id
  unsent : ∀ c, t.conn = some c → t.place = .listening → c.stream.sent = 0
  sent : ∀ c offer k, t.conn = some c → t.place.sent? = some (offer, k) →
    c.stream.sent = UInt64.ofNat k ∧ (under w.sealed c.channel).length = k
  within : ∀ offer k, t.place.sent? = some (offer, k) → k ≤ totalPieces offer
  left : ∀ offer index, t.place = .sending offer index → index < totalPieces offer

/-- What holds of a thread that fetches: it has sealed its hello and nothing else, until the last
word. -/
structure FetchOk (P : Primitives) (w : Wire) (t : FetchThread) : Prop where
  conn : ∀ c, t.conn = some c → Holds P w c ∧ c.channel.side = .receiver ∧
    c.channel.key = t.key ∧ c.channel.offerId = t.id
  sent : ∀ c, t.conn = some c → t.place ≠ .over →
    c.stream.sent = 1 ∧ (under w.sealed c.channel).length = 1

section Others

variable {P : Primitives} {w : Wire}

/-- Effects of other threads leave a thread that serves as it was. -/
theorem ServeOk.notes {t : ServeThread} (h : ServeOk P w t) (fs : List Effect)
    (hforeign : ∀ f ∈ fs, ∀ c, t.conn = some c → f.Foreign c)
    (hsilent : ∀ e, .sealed e ∈ fs → e.label.side = .sender → e.label.key ≠ t.key) :
    ServeOk P (fs.foldl Wire.note w) t := by
  induction fs generalizing w with
  | nil => exact h
  | cons f fs ih =>
      have hhere := hforeign f List.mem_cons_self
      refine ih ?_ (fun f hf => hforeign f (List.mem_cons_of_mem _ hf))
        fun e he => hsilent e (List.mem_cons_of_mem _ he)
      exact {
        silent := fun hplace e he => by
          cases f with
          | connected ch => exact h.silent hplace e he
          | opened n m => exact h.silent hplace e he
          | sealed e' =>
              rcases List.mem_append.1 he with he | he
              · exact h.silent hplace e he
              · rw [List.mem_singleton.1 he]
                exact hsilent e' List.mem_cons_self
        conn := fun c hc => ⟨(h.conn c hc).1.note (hhere c hc), (h.conn c hc).2⟩
        unsent := h.unsent
        sent := fun c offer k hc hplace => by
          rw [under_note (hhere c hc)]
          exact h.sent c offer k hc hplace
        within := h.within
        left := h.left }

theorem FetchOk.notes {t : FetchThread} (h : FetchOk P w t) (fs : List Effect)
    (hforeign : ∀ f ∈ fs, ∀ c, t.conn = some c → f.Foreign c) :
    FetchOk P (fs.foldl Wire.note w) t := by
  induction fs generalizing w with
  | nil => exact h
  | cons f fs ih =>
      have hhere := hforeign f List.mem_cons_self
      refine ih ?_ fun f hf => hforeign f (List.mem_cons_of_mem _ hf)
      exact {
        conn := fun c hc => ⟨(h.conn c hc).1.note (hhere c hc), (h.conn c hc).2⟩
        sent := fun c hc hplace => by
          rw [under_note (hhere c hc)]
          exact h.sent c hc hplace }

end Others

/-! ### Sealing and reading on a connection -/

section Conn

variable {P : Primitives} {w : Wire} {c : Conn}

theorem noteSealed_eq (P : Primitives) (c : Conn) (plaintext : Bytes) :
    (c.seal_ P plaintext).2 = none ∨ ∃ e, (c.seal_ P plaintext).2 = some e ∧ e.label = c.channel ∧
      e.number = c.stream.sent.toNat ∧ e.message.key = c.stream.key ∧
      e.message.nonce = Stream.nonce c.stream.me c.stream.sent ∧ e.message.aad = c.stream.aad := by
  simp only [Conn.seal_]
  split
  · exact .inr ⟨_, rfl, rfl, rfl, rfl, rfl, rfl⟩
  · exact .inl rfl

/-- A frame is sealed on a connection that has counted its own: the log stays as it should be. -/
theorem Holds.seal_ (h : Holds P w c) (hw : Wire.Ok P w) {k : Nat}
    (hsent : c.stream.sent = UInt64.ofNat k) (hunder : (under w.sealed c.channel).length = k)
    (hroom : k + 1 < 2 ^ 32) (plaintext : Bytes) :
    Wire.Ok P ((noteSealed (c.seal_ P plaintext).2).foldl Wire.note w) ∧
      Holds P ((noteSealed (c.seal_ P plaintext).2).foldl Wire.note w) (c.seal_ P plaintext).1 ∧
      (c.seal_ P plaintext).1.channel = c.channel ∧
      (c.seal_ P plaintext).1.stream.sent = UInt64.ofNat (k + 1) ∧
      ((c.seal_ P plaintext).2.isSome = true →
        (under ((noteSealed (c.seal_ P plaintext).2).foldl Wire.note w).sealed
          c.channel).length = k + 1) := by
  have hsmall : c.stream.sent.toNat = k := by
    rw [hsent, UInt64.toNat_ofNat_of_lt' (by rw [UInt64.size]; omega)]
  have hcount : (c.seal_ P plaintext).1.stream.sent = UInt64.ofNat (k + 1) := by
    show c.stream.sent + 1 = UInt64.ofNat (k + 1)
    rw [hsent, UInt64.ofNat_add]
    rfl
  rcases noteSealed_eq P c plaintext with hnone | ⟨e, he, hlabel, hnumber, hkey, hnonce, haad⟩
  · rw [hnone]
    refine ⟨hw, ⟨h.known, h.key, h.aad, h.me, h.received⟩, rfl, hcount, ?_⟩
    intro hsome
    cases hsome
  · rw [he]
    have hframe : Wire.Sealed P w e := {
      known := by
        rw [hlabel]
        exact List.mem_of_getElem? h.known
      key := by rw [hkey, h.key, hlabel]
      nonce := by rw [hnonce, h.me, hlabel, hnumber, hsmall, hsent]
      aad := by rw [haad, h.aad, hlabel] }
    have hok := hw.seal_ hframe (by rw [hnumber, hsmall, hlabel, hunder])
      (by rw [hlabel, hunder]; exact hroom)
    refine ⟨hok, ⟨h.known, h.key, h.aad, h.me, h.received⟩, rfl, hcount, fun _ => ?_⟩
    show (under (w.sealed ++ [e]) c.channel).length = k + 1
    rw [under_append_same hlabel, List.length_append, hunder]
    rfl

/-- Nothing a connection opens was not sealed by the other end. -/
def Unforged (P : Primitives) (w : Wire) (c : Conn) (max : Nat) (input : Bytes) : Prop :=
  ∀ frame plaintext, readFrame max input = some frame →
    P.aeadDecrypt c.stream.key (Stream.nonce c.stream.me.other c.stream.received) frame
      c.stream.aad = some plaintext →
    ∃ e ∈ w.sealed, e.message = {
      key := c.stream.key
      nonce := Stream.nonce c.stream.me.other c.stream.received
      plaintext := plaintext
      aad := c.stream.aad }

theorem Holds.read (h : Holds P w c) (hw : Wire.Ok P w) {max : Nat} {input : Bytes}
    (hunforged : Unforged P w c max input) :
    Wire.Ok P ((noteOpened c.number (c.read P max input).2).foldl Wire.note w) ∧
      Holds P ((noteOpened c.number (c.read P max input).2).foldl Wire.note w)
        (c.read P max input).1 ∧
      (c.read P max input).1.channel = c.channel ∧
      (c.read P max input).1.stream.sent = c.stream.sent := by
  unfold Conn.read
  split
  · exact ⟨hw, h, rfl, rfl⟩
  · rename_i frame hframe
    cases hopen : (c.stream.open_ P frame).2 with
    | error e =>
        simp only [hopen]
        have hsame : (c.stream.open_ P frame).1 = c.stream := by
          unfold Stream.open_ at hopen ⊢
          split at hopen
          · cases hopen
          · rfl
        rw [hsame]
        exact ⟨hw, h, trivial, rfl⟩
    | ok plaintext =>
        simp only [hopen]
        rcases Stream.open_ok hopen with ⟨hdecrypt, hstream⟩
        have hmade := hunforged frame plaintext hframe hdecrypt
        rw [h.key, h.aad, h.me, h.received] at hmade
        have hok := hw.open_ h.known hmade
        refine ⟨hok, ?_, trivial, by rw [hstream]⟩
        rw [hstream]
        exact {
          known := h.known
          key := h.key
          aad := h.aad
          me := h.me
          received := by
            show c.stream.received + 1 = UInt64.ofNat
              ((w.note (.opened c.number plaintext)).openedOn c.number).length
            rw [Wire.openedOn_append_same, List.length_append, List.length_singleton,
              UInt64.ofNat_add, h.received]
            rfl }

theorem noteOpened_sealed (n : Nat) (got : Received) :
    ((noteOpened n got).foldl Wire.note w).sealed = w.sealed := by
  cases got <;> rfl

end Conn

/-! ### One step of the sender's thread -/

section Serve

variable {P : Primitives} {w : Wire} {t : ServeThread} {s : State}

/-- A step of the thread that touches no connection: it listens only if it did, and counts the
pieces it did. -/
structure Quiet (before after : Serving) : Prop where
  listening : after = .listening → before = .listening
  sent : ∀ x, after.sent? = some x → before.sent? = some x
  left : ∀ offer index, after = .sending offer index → before = .sending offer index ∨
    index < totalPieces offer

theorem Quiet.refl (p : Serving) : Quiet p p :=
  ⟨id, fun _ => id, fun _ _ h => .inl h⟩

theorem quiet_over (p : Serving) : Quiet p .over where
  listening := fun h => nomatch h
  sent := fun _ h => nomatch h
  left := fun _ _ h => nomatch h

theorem loop_ne_listening (offer : Offer) (index : Nat) :
    Serving.loop offer index ≠ .listening := by
  unfold Serving.loop
  split
  · exact fun h => nomatch h
  · exact fun h => nomatch h

theorem quiet_stopListening (id : OfferId) (s : State) (p : Serving) :
    Quiet p (Serving.step id s p .stopListening).2.1 := by
  cases p with
  | listening => exact quiet_over _
  | «over» | sending offer index | written offer index | confirming offer => exact Quiet.refl _

theorem quiet_unread (id : OfferId) (s : State) (p : Serving) (err : String) (wrote : Bool) :
    Quiet p (Serving.step id s p (.piece (.error err) wrote)).2.1 := by
  cases p with
  | sending offer index => exact quiet_over _
  | «over» | listening | written offer index | confirming offer => exact Quiet.refl _

theorem quiet_progress (id : OfferId) (s : State) {p : Serving} (now : Instant)
    (hwithin : ∀ offer k, p.sent? = some (offer, k) → k ≤ totalPieces offer) :
    Quiet p (Serving.step id s p (.progress now)).2.1 := by
  cases p with
  | written offer index =>
      simp only [Serving.step]
      split
      · exact {
          listening := fun h => absurd h (loop_ne_listening _ _)
          sent := fun x hx => by
            rw [Serving.sent?_loop offer (index + 1) (hwithin _ _ rfl)] at hx
            exact hx
          left := fun offer' i hi => .inr (Serving.loop_sending hi) }
      · exact quiet_over _
  | «over» | listening | sending offer index | confirming offer => exact Quiet.refl _

/-- The thread keeps what holds of it, its connection as it was or dropped. -/
theorem ServeOk.quiet (h : ServeOk P w t) {place : Serving} (hquiet : Quiet t.place place)
    {conn : Option Conn} (hconn : ∀ c, conn = some c → t.conn = some c) :
    ServeOk P w { t with place := place, conn := conn } where
  silent := fun hplace => h.silent (hquiet.listening hplace)
  conn := fun c hc => h.conn c (hconn c hc)
  unsent := fun c hc hplace => h.unsent c (hconn c hc) (hquiet.listening hplace)
  sent := fun c offer k hc hk => h.sent c offer k (hconn c hc) (hquiet.sent _ hk)
  within := fun offer k hk => h.within offer k (hquiet.sent _ hk)
  left := fun offer index hp => by
    rcases hquiet.left offer index hp with hbefore | hlt
    · exact h.left offer index hbefore
    · exact hlt

/-- A connection is taken in while the thread listens. -/
theorem ServeOk.connected (h : ServeOk P w t) (hw : Wire.Ok P w) (hplace : t.place = .listening)
    {salt : Salt}
    (hderived : ∀ a ∈ w.streams, NoCollision P a ⟨.sender, t.key, salt, t.id⟩)
    (hoffers : ∀ a ∈ w.streams, a.key = t.key → a.offerId = t.id) :
    Wire.Ok P (w.note (.connected ⟨.sender, t.key, salt, t.id⟩)) ∧
      ServeOk P (w.note (.connected ⟨.sender, t.key, salt, t.id⟩))
        { t with conn := some (Conn.new P w.streams.length ⟨.sender, t.key, salt, t.id⟩) } := by
  have hok := hw.connect hderived hoffers
  refine ⟨hok, ?_⟩
  exact {
    silent := h.silent
    conn := fun c hc => by
      cases hc
      refine ⟨?_, rfl, rfl, rfl⟩
      exact {
        known := by
          show (w.streams ++ [_])[w.streams.length]? = _
          rw [List.getElem?_append_right (Nat.le_refl _), Nat.sub_self]
          rfl
        key := rfl
        aad := rfl
        me := rfl
        received := by
          have hnone : (w.note (.connected ⟨.sender, t.key, salt, t.id⟩)).openedOn
              w.streams.length = [] := hw.openedOn_new
          show (0 : UInt64) = UInt64.ofNat ((w.note
              (.connected ⟨.sender, t.key, salt, t.id⟩)).openedOn
            w.streams.length).length
          rw [hnone]
          rfl }
    unsent := fun c hc _ => by
      cases hc
      rfl
    sent := fun c offer k _ hk => by
      rw [hplace] at hk
      cases hk
    within := h.within
    left := h.left }

/-- A frame of the receiver opens while the thread holds a connection. -/
theorem ServeOk.received (h : ServeOk P w t) (hw : Wire.Ok P w) {c : Conn} (hc : t.conn = some c)
    {max : Nat} {input : Bytes} (hunforged : Unforged P w c max input) (place : Serving)
    (conn : Option Conn)
    (hover : place = .over ∨ t.place = .listening ∧ (place = .listening ∨
      ∃ offer, place = Serving.loop offer 0))
    (hconn : ∀ d, conn = some d → d = (c.read P max input).1) :
    Wire.Ok P ((noteOpened c.number (c.read P max input).2).foldl Wire.note w) ∧
      ServeOk P ((noteOpened c.number (c.read P max input).2).foldl Wire.note w)
        { t with place := place, conn := conn } := by
  rcases h.conn c hc with ⟨hholds, hside, hkey, hoffer⟩
  rcases hholds.read hw hunforged with ⟨hok, hread, hchannel, hsentSame⟩
  refine ⟨hok, ?_⟩
  exact {
    silent := fun hp e he => by
      rw [noteOpened_sealed] at he
      rcases hover with rfl | ⟨hlistening, -⟩
      · cases hp
      · exact h.silent hlistening e he
    conn := fun d hd => by
      rw [hconn d hd]
      refine ⟨hread, ?_⟩
      rw [hchannel]
      exact ⟨hside, hkey, hoffer⟩
    unsent := fun d hd hp => by
      rw [hconn d hd, hsentSame]
      rcases hover with rfl | ⟨hlistening, -⟩
      · cases hp
      · exact h.unsent c hc hlistening
    sent := fun d offer k hd hk => by
      rw [hconn d hd, hsentSame, noteOpened_sealed, hchannel]
      rcases hover with rfl | ⟨hlistening, rfl | ⟨begun, rfl⟩⟩
      · cases hk
      · cases hk
      · -- nothing was sealed while it listened, so it starts from the first piece
        rw [Serving.sent?_loop begun 0 (Nat.zero_le _)] at hk
        cases hk
        refine ⟨h.unsent c hc hlistening, ?_⟩
        rw [List.length_eq_zero_iff]
        apply under_eq_nil
        intro e he heq
        refine h.silent hlistening e he ?_ ?_
        · rw [heq, hside]
        · rw [heq, hkey]
    within := fun offer k hk => by
      rcases hover with rfl | ⟨-, rfl | ⟨begun, rfl⟩⟩
      · cases hk
      · cases hk
      · rw [Serving.sent?_loop begun 0 (Nat.zero_le _)] at hk
        cases hk
        exact Nat.zero_le _
    left := fun offer index hp => by
      rcases hover with rfl | ⟨-, rfl | ⟨begun, rfl⟩⟩
      · cases hp
      · cases hp
      · exact Serving.loop_sending hp }

/-- A piece is sealed. -/
theorem ServeOk.sealed (h : ServeOk P w t) (hw : Wire.Ok P w) {c : Conn} (hc : t.conn = some c)
    {offer : Offer} {index : Nat} (hplace : t.place = .sending offer index) (data : Bytes)
    {place : Serving}
    (hnext : place = .over ∨ (c.seal_ P data).2.isSome = true ∧ place = .written offer index) :
    Wire.Ok P ((noteSealed (c.seal_ P data).2).foldl Wire.note w) ∧
      ServeOk P ((noteSealed (c.seal_ P data).2).foldl Wire.note w)
        { t with place := place, conn := some (c.seal_ P data).1 } := by
  rcases h.conn c hc with ⟨hholds, hside, hkey, hoffer⟩
  have hleft := h.left offer index hplace
  rcases h.sent c offer index hc (by rw [hplace]; rfl) with ⟨hsent, hunder⟩
  have hroom : index + 1 < 2 ^ 32 := by
    have hmax : totalPieces offer ≤ U32_MAX := Nat.min_le_right _ _
    have hval : U32_MAX = 2 ^ 32 - 1 := rfl
    omega
  rcases hholds.seal_ hw hsent hunder hroom data with ⟨hok, hnew, hchannel, hcount, hlength⟩
  refine ⟨hok, ?_⟩
  exact {
    silent := fun hp => by
      rcases hnext with rfl | ⟨-, rfl⟩ <;> cases hp
    conn := fun d hd => by
      cases hd
      refine ⟨hnew, ?_⟩
      rw [hchannel]
      exact ⟨hside, hkey, hoffer⟩
    unsent := fun d _ hp => by
      rcases hnext with rfl | ⟨-, rfl⟩ <;> cases hp
    sent := fun d offer' k hd hk => by
      rcases hnext with rfl | ⟨hsome, rfl⟩
      · cases hk
      · cases hk
        cases hd
        rw [hchannel]
        exact ⟨hcount, hlength hsome⟩
    within := fun offer' k hk => by
      rcases hnext with rfl | ⟨-, rfl⟩
      · cases hk
      · cases hk
        exact hleft
    left := fun offer' i hp => by
      rcases hnext with rfl | ⟨-, rfl⟩ <;> cases hp }

/-- One step of the thread keeps the log as it should be, and what holds of the thread. -/
theorem ServeOk.step (h : ServeOk P w t) (hw : Wire.Ok P w) (e : ServeIo)
    (hderived : ∀ salt, e = .connected salt →
      ∀ a ∈ w.streams, NoCollision P a ⟨.sender, t.key, salt, t.id⟩)
    (hoffers : ∀ a ∈ w.streams, a.key = t.key → a.offerId = t.id)
    (hunforged : ∀ c input, t.conn = some c → (e = .lastWord input ∨ ∃ now, e = .hello input now) →
      Unforged P w c SMALL_FRAME input) :
    Wire.Ok P ((t.step P w.streams.length s e).2.foldl Wire.note w) ∧
      ServeOk P ((t.step P w.streams.length s e).2.foldl Wire.note w)
        (t.step P w.streams.length s e).1 := by
  cases e with
  | stopListening =>
      simp only [ServeThread.step]
      split
      · rename_i hnone
        exact ⟨hw, h.quiet (quiet_stopListening t.id s t.place) fun c hc => hc⟩
      · exact ⟨hw, h⟩
  | connected salt =>
      simp only [ServeThread.step]
      split
      · rename_i hplace hnone
        exact h.connected hw hplace (hderived salt rfl) hoffers
      · exact ⟨hw, h⟩
  | hello input now =>
      simp only [ServeThread.step]
      split
      · rename_i c hplace hc
        have hun := hunforged c input hc (.inr ⟨now, rfl⟩)
        -- what the read opened is noted, and decides where the thread goes
        cases hgot : (c.read P SMALL_FRAME input).2 with
        | opened plaintext =>
            simp only
            split
            · have hnext : (Serving.step t.id s .listening (.greeted now)).2.1 = .over ∨
                  ∃ offer, (Serving.step t.id s .listening (.greeted now)).2.1 =
                    Serving.loop offer 0 := by
                simp only [Serving.step]
                split
                · exact .inl rfl
                · exact .inr ⟨_, rfl⟩
              have hover : (Serving.step t.id s .listening (.greeted now)).2.1 = .over ∨
                  t.place = .listening ∧
                    ((Serving.step t.id s .listening (.greeted now)).2.1 = .listening ∨
                      ∃ offer, (Serving.step t.id s .listening (.greeted now)).2.1 =
                        Serving.loop offer 0) := by
                rcases hnext with hend | hbegun
                · exact .inl hend
                · exact .inr ⟨hplace, .inr hbegun⟩
              have hdone := h.received hw hc hun _ (some (c.read P SMALL_FRAME input).1) hover
                fun d hd => (Option.some.inj hd).symm
              rw [hgot] at hdone
              exact hdone
            · have hdone := h.received hw hc hun .listening none
                (.inr ⟨hplace, .inl rfl⟩) fun d hd => nomatch hd
              rw [hgot] at hdone
              rw [← hplace] at hdone
              exact hdone
        | nothing | damaged =>
            simp only
            exact ⟨hw, h.quiet (Quiet.refl t.place) fun c hc => nomatch hc⟩
      · exact ⟨hw, h⟩
  | piece data wrote =>
      cases data with
      | error err => exact ⟨hw, h.quiet (quiet_unread t.id s t.place err wrote) fun c hc => hc⟩
      | ok data =>
          simp only [ServeThread.step]
          split
          · rename_i offer index c hplace hc
            split
            · exact ⟨hw, h⟩
            · rename_i hlength
              refine h.sealed hw hc hplace data ?_
              simp only [Serving.step, if_neg hlength]
              split
              · exact .inl rfl
              · rename_i hsent
                rw [Bool.not_eq_true', Bool.not_eq_false, Bool.and_eq_true] at hsent
                exact .inr ⟨hsent.1, rfl⟩
          · exact ⟨hw, h⟩
  | progress now =>
      exact ⟨hw, h.quiet (quiet_progress t.id s now h.within) fun c hc => hc⟩
  | lastWord input =>
      simp only [ServeThread.step]
      split
      · rename_i offer c hplace hc
        have hover : (Serving.step t.id s (.confirming offer)
            (.lastWord (lastWordOf (c.read P SMALL_FRAME input).2))).2.1 = .over := by
          cases lastWordOf (c.read P SMALL_FRAME input).2 <;> rfl
        exact h.received hw hc (hunforged c input hc (.inl rfl)) _ _ (.inl hover)
          fun d hd => (Option.some.inj hd).symm
      · exact ⟨hw, h⟩

/-- The effects of a step are those of the thread's own key, and of its own connection. -/
structure ServeOwn (t : ServeThread) (f : Effect) : Prop where
  connected : ∀ ch, f = .connected ch → ch.side = .sender ∧ ch.key = t.key ∧ ch.offerId = t.id
  sealed : ∀ e, f = .sealed e → ∃ c, t.conn = some c ∧ e.label = c.channel
  opened : ∀ n m, f = .opened n m → ∃ c, t.conn = some c ∧ n = c.number

theorem serveOwn_sealed {c : Conn} (hc : t.conn = some c) (plaintext : Bytes) :
    ∀ f ∈ noteSealed (c.seal_ P plaintext).2, ServeOwn t f := by
  rcases noteSealed_eq P c plaintext with hnone | ⟨e, he, hlabel, -⟩
  · rw [hnone]
    exact fun f hf => nomatch hf
  · rw [he]
    intro f hf
    rw [List.mem_singleton.1 hf]
    exact {
      connected := fun ch hch => nomatch hch
      sealed := fun e' he' => by
        cases he'
        exact ⟨c, hc, hlabel⟩
      opened := fun n m hm => nomatch hm }

theorem serveOwn_opened {c : Conn} (hc : t.conn = some c) (got : Received) :
    ∀ f ∈ noteOpened c.number got, ServeOwn t f := by
  cases got with
  | opened plaintext =>
      intro f hf
      rw [List.mem_singleton.1 hf]
      exact {
        connected := fun ch hch => nomatch hch
        sealed := fun e he => nomatch he
        opened := fun n m hm => by
          cases hm
          exact ⟨c, hc, rfl⟩ }
  | nothing | damaged => exact fun f hf => nomatch hf

theorem ServeThread.step_own (number : Nat) (e : ServeIo) :
    ∀ f ∈ (t.step P number s e).2, ServeOwn t f := by
  have hnone : ∀ f ∈ ([] : List Effect), ServeOwn t f := fun f hf => nomatch hf
  cases e with
  | stopListening =>
      simp only [ServeThread.step]
      split
      · exact hnone
      · exact hnone
  | connected salt =>
      simp only [ServeThread.step]
      split
      · intro f hf
        rw [List.mem_singleton.1 hf]
        exact {
          connected := fun ch hch => by
            cases hch
            exact ⟨rfl, rfl, rfl⟩
          sealed := fun e he => nomatch he
          opened := fun n m hm => nomatch hm }
      · exact hnone
  | hello input now =>
      simp only [ServeThread.step]
      split
      · rename_i c hplace hc
        cases (c.read P SMALL_FRAME input).2 with
        | opened plaintext =>
            simp only
            split
            · exact serveOwn_opened hc (.opened plaintext)
            · exact serveOwn_opened hc (.opened plaintext)
        | nothing | damaged => exact hnone
      · exact hnone
  | piece data wrote =>
      cases data with
      | error err => exact hnone
      | ok data =>
          simp only [ServeThread.step]
          split
          · rename_i offer index c hplace hc
            split
            · exact hnone
            · exact serveOwn_sealed hc data
          · exact hnone
  | progress now => exact hnone
  | lastWord input =>
      simp only [ServeThread.step]
      split
      · rename_i offer c hplace hc
        exact serveOwn_opened hc _
      · exact hnone

theorem ServeThread.step_same (number : Nat) (e : ServeIo) :
    (t.step P number s e).1.id = t.id ∧ (t.step P number s e).1.key = t.key := by
  cases e with
  | stopListening =>
      simp only [ServeThread.step]
      split <;> exact ⟨rfl, rfl⟩
  | connected salt =>
      simp only [ServeThread.step]
      split <;> exact ⟨rfl, rfl⟩
  | hello input now =>
      simp only [ServeThread.step]
      split
      · split
        · split <;> exact ⟨rfl, rfl⟩
        · exact ⟨rfl, rfl⟩
      · exact ⟨rfl, rfl⟩
  | piece data wrote =>
      cases data with
      | error err => exact ⟨rfl, rfl⟩
      | ok data =>
          simp only [ServeThread.step]
          split
          · split <;> exact ⟨rfl, rfl⟩
          · exact ⟨rfl, rfl⟩
  | progress now => exact ⟨rfl, rfl⟩
  | lastWord input =>
      simp only [ServeThread.step]
      split <;> exact ⟨rfl, rfl⟩

end Serve

/-! ### One step of the receiver's thread -/

section Fetch

variable {P : Primitives} {w : Wire} {t : FetchThread} {s : State}

theorem fetching_over (P : Primitives) (id : OfferId) (s : State) (e : Fetch) :
    (Fetching.step P id s .over e).2.1 = .over := by
  cases e <;> rfl

/-- A last word is the last thing a thread does. -/
theorem fetching_lastWord {p : Fetching} {e : Fetch} {ended : AckState}
    (h : (Fetching.step P t.id s p e).2.2.2 = some ended) :
    p ≠ .over ∧ (Fetching.step P t.id s p e).2.1 = .over := by
  cases p with
  | holding data =>
      cases e with
      | piece io now =>
          simp only [Fetching.step] at h ⊢
          split at h
          · cases h
          · cases h
          · refine ⟨?_, rfl⟩
            exact fun hover => nomatch hover
      | unreached | ask room | first data | begins now | next data | broke reason => cases h
  | «over» | reaching | asking | opened data | reading =>
      cases e <;> cases h

/-- The thread keeps what holds of it, its connection as it was or dropped. -/
theorem FetchOk.quiet (h : FetchOk P w t) {place : Fetching}
    (hover : t.place = .over → place = .over)
    {conn : Option Conn} (hconn : ∀ c, conn = some c → t.conn = some c) :
    FetchOk P w { t with place := place, conn := conn } where
  conn := fun c hc => h.conn c (hconn c hc)
  sent := fun c hc hp => h.sent c (hconn c hc) fun hbefore => hp (hover hbefore)

/-- A frame of the sender opens. -/
theorem FetchOk.received (h : FetchOk P w t) (hw : Wire.Ok P w) {c : Conn} (hc : t.conn = some c)
    {max : Nat} {input : Bytes} (hunforged : Unforged P w c max input) (place : Fetching)
    (hplace : t.place ≠ .over) :
    Wire.Ok P ((noteOpened c.number (c.read P max input).2).foldl Wire.note w) ∧
      FetchOk P ((noteOpened c.number (c.read P max input).2).foldl Wire.note w)
        { t with place := place, conn := some (c.read P max input).1 } := by
  rcases h.conn c hc with ⟨hholds, hside, hkey, hoffer⟩
  rcases hholds.read hw hunforged with ⟨hok, hread, hchannel, hsentSame⟩
  refine ⟨hok, ?_⟩
  exact {
    conn := fun d hd => by
      cases hd
      refine ⟨hread, ?_⟩
      rw [hchannel]
      exact ⟨hside, hkey, hoffer⟩
    sent := fun d hd _ => by
      cases hd
      rw [hsentSame, noteOpened_sealed, hchannel]
      exact h.sent c hc hplace }

/-- The last word is sealed. -/
theorem FetchOk.sealed (h : FetchOk P w t) (hw : Wire.Ok P w) {c : Conn} (hc : t.conn = some c)
    (hplace : t.place ≠ .over) (plaintext : Bytes) :
    Wire.Ok P ((noteSealed (c.seal_ P plaintext).2).foldl Wire.note w) ∧
      FetchOk P ((noteSealed (c.seal_ P plaintext).2).foldl Wire.note w)
        { t with place := .over, conn := some (c.seal_ P plaintext).1 } := by
  rcases h.conn c hc with ⟨hholds, hside, hkey, hoffer⟩
  rcases h.sent c hc hplace with ⟨hsent, hunder⟩
  rcases hholds.seal_ (k := 1) hw hsent hunder (by decide) plaintext with
    ⟨hok, hnew, hchannel, -, -⟩
  refine ⟨hok, ?_⟩
  exact {
    conn := fun d hd => by
      cases hd
      refine ⟨hnew, ?_⟩
      rw [hchannel]
      exact ⟨hside, hkey, hoffer⟩
    sent := fun d _ hp => absurd rfl hp }

/-- No frame was sealed on an end whose salt is new. -/
theorem under_fresh (hw : Wire.Ok P w) (ch : Channel) (hside : ch.side = .receiver)
    (hfresh : ∀ a ∈ w.streams, a.side = .receiver → a.salt ≠ ch.salt) :
    under w.sealed ch = [] := by
  apply under_eq_nil
  intro e he heq
  have hknown := (hw.frames e he).known
  rw [heq] at hknown
  exact hfresh ch hknown hside rfl

/-- The sender is reached: an end joins the log, and says hello. -/
theorem reached_ok (hw : Wire.Ok P w) {salt : Salt}
    (hderived : ∀ a ∈ w.streams, NoCollision P a ⟨.receiver, t.key, salt, t.id⟩)
    (hoffers : ∀ a ∈ w.streams, a.key = t.key → a.offerId = t.id)
    (hfresh : ∀ a ∈ w.streams, a.side = .receiver → a.salt ≠ salt) (plaintext : Bytes) {c : Conn}
    (hc : c = Conn.new P w.streams.length ⟨.receiver, t.key, salt, t.id⟩) :
    Wire.Ok P ((Effect.connected ⟨.receiver, t.key, salt, t.id⟩ ::
        noteSealed (c.seal_ P plaintext).2).foldl Wire.note w) ∧
      ((c.seal_ P plaintext).2.isSome = true → ∀ place : Fetching,
        FetchOk P ((Effect.connected ⟨.receiver, t.key, salt, t.id⟩ ::
            noteSealed (c.seal_ P plaintext).2).foldl Wire.note w)
          { t with place := place, conn := some (c.seal_ P plaintext).1 }) := by
  have hjoined := hw.connect hderived hoffers
  have hnone := under_fresh hw ⟨.receiver, t.key, salt, t.id⟩ rfl hfresh
  have hholds : Holds P (w.note (.connected ⟨.receiver, t.key, salt, t.id⟩)) c := by
    rw [hc]
    exact {
      known := by
        show (w.streams ++ [_])[w.streams.length]? = _
        rw [List.getElem?_append_right (Nat.le_refl _), Nat.sub_self]
        rfl
      key := rfl
      aad := rfl
      me := rfl
      received := by
        have hempty : (w.note (.connected ⟨.receiver, t.key, salt, t.id⟩)).openedOn
            w.streams.length = [] := hw.openedOn_new
        show (0 : UInt64) = UInt64.ofNat
          ((w.note (.connected ⟨.receiver, t.key, salt, t.id⟩)).openedOn w.streams.length).length
        rw [hempty]
        rfl }
  have hstart : c.stream.sent = UInt64.ofNat 0 := by
    rw [hc]
    rfl
  have hchannel : c.channel = ⟨.receiver, t.key, salt, t.id⟩ := by
    rw [hc]
    rfl
  have hunder : (under (w.note (.connected ⟨.receiver, t.key, salt, t.id⟩)).sealed
      c.channel).length = 0 := by
    rw [hchannel, List.length_eq_zero_iff]
    exact hnone
  rcases hholds.seal_ hjoined hstart hunder (by decide) plaintext with
    ⟨hok, hnew, hsame, hcount, hlength⟩
  refine ⟨hok, fun hsome place => ?_⟩
  exact {
    conn := fun d hd => by
      cases hd
      refine ⟨hnew, ?_⟩
      rw [hsame, hchannel]
      exact ⟨rfl, rfl, rfl⟩
    sent := fun d hd _ => by
      cases hd
      rw [hsame]
      exact ⟨hcount, hlength hsome⟩ }

/-- One step of the thread keeps the log as it should be, and what holds of the thread. -/
theorem FetchOk.step (h : FetchOk P w t) (hw : Wire.Ok P w) (e : FetchIo)
    (hderived : ∀ salt connected wrote, e = .reached salt connected wrote →
      ∀ a ∈ w.streams, NoCollision P a ⟨.receiver, t.key, salt, t.id⟩)
    (hfresh : ∀ salt connected wrote, e = .reached salt connected wrote →
      ∀ a ∈ w.streams, a.side = .receiver → a.salt ≠ salt)
    (hoffers : ∀ a ∈ w.streams, a.key = t.key → a.offerId = t.id)
    (hunforged : ∀ c input, t.conn = some c → (e = .first input ∨ e = .next input) →
      Unforged P w c PIECE_FRAME input) :
    Wire.Ok P ((t.step P w.streams.length s e).2.foldl Wire.note w) ∧
      FetchOk P ((t.step P w.streams.length s e).2.foldl Wire.note w)
        (t.step P w.streams.length s e).1 := by
  have hstay : ∀ e : Fetch, t.place = .over →
      (Fetching.step P t.id s t.place e).2.1 = .over := by
    intro e hover
    rw [hover]
    exact fetching_over P t.id s e
  cases e with
  | unreached =>
      simp only [FetchThread.step]
      split
      · exact ⟨hw, h.quiet (hstay _) fun c hc => hc⟩
      · exact ⟨hw, h⟩
  | reached salt connected wrote =>
      have hderived := hderived salt connected wrote rfl
      have hfresh := hfresh salt connected wrote rfl
      have hdropped : ∀ (v : Wire) (place : Fetching) (conn : Option Conn), conn = none →
          FetchOk P v { t with place := place, conn := conn } := by
        rintro v place conn rfl
        exact {
          conn := fun c hc => nomatch hc
          sent := fun c hc => nomatch hc }
      simp only [FetchThread.step]
      split
      · rename_i hplace hnone
        rcases reached_ok hw hderived hoffers hfresh (Stream.hello t.id) rfl with ⟨hok, hnew⟩
        split
        · exact ⟨hw.connect hderived hoffers, hdropped _ _ _ hnone⟩
        · split
          · rename_i hsaid
            rw [Bool.and_eq_true] at hsaid
            exact ⟨hok, hnew hsaid.1 t.place⟩
          · exact ⟨hok, hdropped _ _ _ hnone⟩
      · exact ⟨hw, h⟩
  | first input =>
      simp only [FetchThread.step]
      split
      · rename_i c hplace hc
        have hlive : t.place ≠ .over := by
          rw [hplace]
          exact fun hover => nomatch hover
        have hdone := h.received hw hc (hunforged c input hc (.inl rfl))
          (Fetching.step P t.id s .reaching (.first (match (c.read P PIECE_FRAME input).2 with
            | .opened plaintext => plaintext
            | _ => []))).2.1 hlive
        cases hgot : (c.read P PIECE_FRAME input).2 with
        | opened plaintext =>
            rw [hgot] at hdone
            exact hdone
        | nothing | damaged =>
            refine ⟨hw, h.quiet (fun hover => absurd hover hlive) fun c hc => nomatch hc⟩
      · exact ⟨hw, h⟩
  | ask room => exact ⟨hw, h.quiet (hstay _) fun c hc => hc⟩
  | begins now => exact ⟨hw, h.quiet (hstay _) fun c hc => hc⟩
  | piece io now =>
      simp only [FetchThread.step]
      split
      · rename_i ended c hword hc
        rcases fetching_lastWord hword with ⟨hlive, hover⟩
        rw [hover]
        exact h.sealed hw hc hlive (wordFrame ended)
      · exact ⟨hw, h.quiet (hstay _) fun c hc => hc⟩
  | next input =>
      simp only [FetchThread.step]
      split
      · rename_i c hplace hc
        have hlive : t.place ≠ .over := by
          rw [hplace]
          exact fun hover => nomatch hover
        have hun := hunforged c input hc (.inr rfl)
        cases hgot : (c.read P PIECE_FRAME input).2 with
        | opened plaintext =>
            have hdone := h.received hw hc hun
              (Fetching.step P t.id s .reading (.next plaintext)).2.1 hlive
            rw [hgot] at hdone
            exact hdone
        | nothing | damaged =>
            exact ⟨hw, h.quiet (fun hover => absurd hover hlive) fun c hc => hc⟩
      · exact ⟨hw, h⟩

/-- The effects of a step are those of the thread's own connection, or of a new one. -/
structure FetchOwn (t : FetchThread) (e : FetchIo) (f : Effect) : Prop where
  connected : ∀ ch, f = .connected ch → ch.side = .receiver ∧ ch.key = t.key ∧ ch.offerId = t.id
  sealed : ∀ e', f = .sealed e' → (∃ c, t.conn = some c ∧ e'.label = c.channel) ∨
    ∃ salt connected wrote, e = .reached salt connected wrote ∧
      e'.label = ⟨.receiver, t.key, salt, t.id⟩
  opened : ∀ n m, f = .opened n m → ∃ c, t.conn = some c ∧ n = c.number

theorem fetchOwn_opened {e : FetchIo} {c : Conn} (hc : t.conn = some c) (plaintext : Bytes) :
    ∀ f ∈ [Effect.opened c.number plaintext], FetchOwn t e f := by
  intro f hf
  rw [List.mem_singleton.1 hf]
  exact {
    connected := fun ch hch => nomatch hch
    sealed := fun e he => nomatch he
    opened := fun n m hm => by
      cases hm
      exact ⟨c, hc, rfl⟩ }

theorem fetchOwn_sealed {e : FetchIo} {c : Conn} (plaintext : Bytes)
    (h : (∃ d, t.conn = some d ∧ c.channel = d.channel) ∨
      ∃ salt connected wrote, e = .reached salt connected wrote ∧
        c.channel = ⟨.receiver, t.key, salt, t.id⟩) :
    ∀ f ∈ noteSealed (c.seal_ P plaintext).2, FetchOwn t e f := by
  rcases noteSealed_eq P c plaintext with hnone | ⟨made, hmade, hlabel, -⟩
  · rw [hnone]
    exact fun f hf => nomatch hf
  · rw [hmade]
    intro f hf
    rw [List.mem_singleton.1 hf]
    exact {
      connected := fun ch hch => nomatch hch
      sealed := fun e' he' => by
        cases he'
        rw [hlabel]
        exact h
      opened := fun n m hm => nomatch hm }

theorem FetchThread.step_own (number : Nat) (e : FetchIo) :
    ∀ f ∈ (t.step P number s e).2, FetchOwn t e f := by
  have hnone : ∀ f ∈ ([] : List Effect), FetchOwn t e f := fun f hf => nomatch hf
  cases e with
  | unreached =>
      simp only [FetchThread.step]
      split
      · exact hnone
      · exact hnone
  | reached salt connected wrote =>
      have hconnected : FetchOwn t (.reached salt connected wrote)
          (.connected ⟨.receiver, t.key, salt, t.id⟩) := {
        connected := fun ch hch => by
          cases hch
          exact ⟨rfl, rfl, rfl⟩
        sealed := fun e he => nomatch he
        opened := fun n m hm => nomatch hm }
      have hsealed := fetchOwn_sealed (P := P) (t := t) (e := .reached salt connected wrote)
        (c := Conn.new P number ⟨.receiver, t.key, salt, t.id⟩) (Stream.hello t.id)
        (.inr ⟨salt, connected, wrote, rfl, rfl⟩)
      simp only [FetchThread.step]
      split
      · split
        · intro f hf
          rw [List.mem_singleton.1 hf]
          exact hconnected
        · split
          · exact List.forall_mem_cons.2 ⟨hconnected, hsealed⟩
          · exact List.forall_mem_cons.2 ⟨hconnected, hsealed⟩
      · exact hnone
  | first input =>
      simp only [FetchThread.step]
      split
      · rename_i c hplace hc
        cases (c.read P PIECE_FRAME input).2 with
        | opened plaintext => exact fetchOwn_opened hc plaintext
        | nothing | damaged => exact hnone
      · exact hnone
  | ask room => exact hnone
  | begins now => exact hnone
  | piece io now =>
      simp only [FetchThread.step]
      split
      · rename_i ended c hword hc
        exact fetchOwn_sealed (wordFrame ended) (.inl ⟨c, hc, rfl⟩)
      · exact hnone
  | next input =>
      simp only [FetchThread.step]
      split
      · rename_i c hplace hc
        cases (c.read P PIECE_FRAME input).2 with
        | opened plaintext => exact fetchOwn_opened hc plaintext
        | nothing | damaged => exact hnone
      · exact hnone

/-- The thread stays the same transfer's, and takes a new connection only when it reaches one. -/
theorem FetchThread.step_same (number : Nat) (e : FetchIo) :
    ((t.step P number s e).1.id = t.id ∧ (t.step P number s e).1.key = t.key) ∧
      ∀ d, (t.step P number s e).1.conn = some d →
        (∃ c, t.conn = some c ∧ d.channel = c.channel) ∨
          ∃ salt connected wrote, e = .reached salt connected wrote ∧ d.channel.salt = salt := by
  have hread : ∀ (c : Conn) (max : Nat) (input : Bytes),
      (c.read P max input).1.channel = c.channel := by
    intro c max input
    unfold Conn.read
    split <;> rfl
  cases e with
  | unreached =>
      simp only [FetchThread.step]
      split
      · exact ⟨⟨rfl, rfl⟩, fun d hd => .inl ⟨d, hd, rfl⟩⟩
      · exact ⟨⟨rfl, rfl⟩, fun d hd => .inl ⟨d, hd, rfl⟩⟩
  | reached salt connected wrote =>
      simp only [FetchThread.step]
      split
      · split
        · exact ⟨⟨rfl, rfl⟩, fun d hd => .inl ⟨d, hd, rfl⟩⟩
        · split
          · refine ⟨⟨rfl, rfl⟩, fun d hd => .inr ⟨salt, connected, wrote, rfl, ?_⟩⟩
            cases hd
            rfl
          · exact ⟨⟨rfl, rfl⟩, fun d hd => .inl ⟨d, hd, rfl⟩⟩
      · exact ⟨⟨rfl, rfl⟩, fun d hd => .inl ⟨d, hd, rfl⟩⟩
  | first input =>
      simp only [FetchThread.step]
      split
      · rename_i c hplace hc
        cases (c.read P PIECE_FRAME input).2 with
        | opened plaintext =>
            refine ⟨⟨rfl, rfl⟩, fun d hd => .inl ⟨c, hc, ?_⟩⟩
            cases hd
            exact hread c _ _
        | nothing | damaged => exact ⟨⟨rfl, rfl⟩, fun d hd => nomatch hd⟩
      · exact ⟨⟨rfl, rfl⟩, fun d hd => .inl ⟨d, hd, rfl⟩⟩
  | ask room => exact ⟨⟨rfl, rfl⟩, fun d hd => .inl ⟨d, hd, rfl⟩⟩
  | begins now => exact ⟨⟨rfl, rfl⟩, fun d hd => .inl ⟨d, hd, rfl⟩⟩
  | piece io now =>
      simp only [FetchThread.step]
      split
      · rename_i ended c hword hc
        refine ⟨⟨rfl, rfl⟩, fun d hd => .inl ⟨c, hc, ?_⟩⟩
        cases hd
        rfl
      · exact ⟨⟨rfl, rfl⟩, fun d hd => .inl ⟨d, hd, rfl⟩⟩
  | next input =>
      simp only [FetchThread.step]
      split
      · rename_i c hplace hc
        cases (c.read P PIECE_FRAME input).2 with
        | opened plaintext =>
            refine ⟨⟨rfl, rfl⟩, fun d hd => .inl ⟨c, hc, ?_⟩⟩
            cases hd
            exact hread c _ _
        | nothing | damaged => exact ⟨⟨rfl, rfl⟩, fun d hd => .inl ⟨d, hd, rfl⟩⟩
      · exact ⟨⟨rfl, rfl⟩, fun d hd => .inl ⟨d, hd, rfl⟩⟩

end Fetch

/-! ## Every run -/

/-- What holds of both devices and their connections. -/
structure World.Ok (P : Primitives) (w : World) : Prop where
  wire : Wire.Ok P w.wire
  keys : ∀ (i j : Nat) t u, w.serves[i]? = some t → w.serves[j]? = some u → t.key = u.key → i = j
  serves : ∀ (i : Nat) t, w.serves[i]? = some t → ServeOk P w.wire t
  fetches : ∀ (j : Nat) t, w.fetches[j]? = some t → FetchOk P w.wire t
  transfers : ∀ (j : Nat) t, w.fetches[j]? = some t →
    ∃ (i : Nat) (u : ServeThread), w.serves[i]? = some u ∧ u.key = t.key ∧ u.id = t.id
  known : ∀ ch ∈ w.wire.streams,
    ∃ (i : Nat) (u : ServeThread), w.serves[i]? = some u ∧ u.key = ch.key ∧ u.id = ch.offerId
  apart : ∀ (i j : Nat) t u c d, w.fetches[i]? = some t → w.fetches[j]? = some u →
    t.conn = some c → u.conn = some d → c.channel.salt = d.channel.salt → i = j

section World

variable {P : Primitives} {w : World}

theorem getElem?_set_cases {α : Type} {xs : List α} {i j : Nat} {x y : α}
    (h : (xs.set i x)[j]? = some y) : j = i ∧ y = x ∨ j ≠ i ∧ xs[j]? = some y := by
  rw [List.getElem?_set] at h
  split at h
  · rename_i hij
    split at h
    · exact .inl ⟨hij.symm, (Option.some.inj h).symm⟩
    · cases h
  · rename_i hij
    exact .inr ⟨fun heq => hij heq.symm, h⟩

theorem getElem?_append_cases {α : Type} {xs : List α} {j : Nat} {x y : α}
    (h : (xs ++ [x])[j]? = some y) : xs[j]? = some y ∨ j = xs.length ∧ y = x := by
  by_cases hlt : j < xs.length
  · rw [List.getElem?_append_left hlt] at h
    exact .inl h
  · have hle : j < (xs ++ [x]).length := (List.getElem?_eq_some_iff.1 h).1
    rw [List.length_append, List.length_singleton] at hle
    have heq : j = xs.length := by omega
    rw [heq, List.getElem?_append_right (Nat.le_refl _), Nat.sub_self] at h
    exact .inr ⟨heq, (Option.some.inj h).symm⟩

theorem mem_streams_notes {wire : Wire} {ch : Channel} (fs : List Effect)
    (h : ch ∈ (fs.foldl Wire.note wire).streams) : ch ∈ wire.streams ∨ .connected ch ∈ fs := by
  induction fs generalizing wire with
  | nil => exact .inl h
  | cons f fs ih =>
      rcases ih h with hmem | hmem
      · cases f with
        | connected other =>
            rcases List.mem_append.1 hmem with hbefore | hnew
            · exact .inl hbefore
            · rw [List.mem_singleton.1 hnew]
              exact .inr List.mem_cons_self
        | sealed e => exact .inl hmem
        | opened n m => exact .inl hmem
      · exact .inr (List.mem_cons_of_mem _ hmem)

/-- Connections with one place in the log are of one channel. -/
theorem Holds.channel_eq {wire : Wire} {c d : Conn} (hc : Holds P wire c) (hd : Holds P wire d)
    (h : c.number = d.number) : c.channel = d.channel := by
  have hboth := hd.known
  rw [← h, hc.known] at hboth
  exact Option.some.inj hboth

theorem ok_empty (P : Primitives) : World.Ok P World.empty where
  wire := Wire.ok_empty
  keys := fun _ _ _ _ h => nomatch h
  serves := fun _ _ h => nomatch h
  fetches := fun _ _ h => nomatch h
  transfers := fun _ _ h => nomatch h
  known := fun _ h => nomatch h
  apart := fun _ _ _ _ _ _ h => nomatch h

theorem World.Ok.offered (h : World.Ok P w) (id : OfferId) {key : Key}
    (hfresh : ∀ t ∈ w.serves, t.key ≠ key) : World.Ok P (w.step P (.offered id key)) where
  wire := h.wire
  keys := fun i j t u ht hu hkey => by
    rcases getElem?_append_cases ht with ht | ⟨hi, rfl⟩
    · rcases getElem?_append_cases hu with hu | ⟨hj, rfl⟩
      · exact h.keys i j t u ht hu hkey
      · exact absurd hkey (hfresh t (List.mem_of_getElem? ht))
    · rcases getElem?_append_cases hu with hu | ⟨hj, rfl⟩
      · exact absurd hkey.symm (hfresh u (List.mem_of_getElem? hu))
      · rw [hi, hj]
  serves := fun i t ht => by
    rcases getElem?_append_cases ht with ht | ⟨-, rfl⟩
    · exact h.serves i t ht
    · exact {
        silent := fun _ e he _ hkey => by
          rcases h.known e.label (h.wire.frames e he).known with ⟨i, u, hu, hukey, -⟩
          exact hfresh u (List.mem_of_getElem? hu) (hukey.trans hkey)
        conn := fun c hc => nomatch hc
        unsent := fun c hc => nomatch hc
        sent := fun c offer k hc => nomatch hc
        within := fun offer k hk => nomatch hk
        left := fun offer index hp => nomatch hp }
  fetches := h.fetches
  transfers := fun j t ht => by
    rcases h.transfers j t ht with ⟨i, u, hu, hsame⟩
    exact ⟨i, u, by
      show (w.serves ++ [_])[i]? = some u
      rw [List.getElem?_append_left (List.getElem?_eq_some_iff.1 hu).1]
      exact hu, hsame⟩
  known := fun ch hch => by
    rcases h.known ch hch with ⟨i, u, hu, hsame⟩
    exact ⟨i, u, by
      show (w.serves ++ [_])[i]? = some u
      rw [List.getElem?_append_left (List.getElem?_eq_some_iff.1 hu).1]
      exact hu, hsame⟩
  apart := h.apart

theorem World.Ok.accepted (h : World.Ok P w) (i : Nat) :
    World.Ok P (w.step P (.accepted i)) := by
  simp only [World.step]
  split
  · exact h
  · rename_i u hu
    exact {
      wire := h.wire
      keys := h.keys
      serves := h.serves
      fetches := fun j t ht => by
        rcases getElem?_append_cases ht with ht | ⟨-, rfl⟩
        · exact h.fetches j t ht
        · exact {
            conn := fun c hc => nomatch hc
            sent := fun c hc => nomatch hc }
      transfers := fun j t ht => by
        rcases getElem?_append_cases ht with ht | ⟨-, rfl⟩
        · exact h.transfers j t ht
        · exact ⟨i, u, hu, rfl, rfl⟩
      known := h.known
      apart := fun j k t v c d ht hv hc hd hsalt => by
        rcases getElem?_append_cases ht with ht | ⟨-, rfl⟩
        · rcases getElem?_append_cases hv with hv | ⟨-, rfl⟩
          · exact h.apart j k t v c d ht hv hc hd hsalt
          · cases hd
        · cases hc }

/-- A transfer key is that of one offer. -/
theorem World.Ok.offer_of_key (h : World.Ok P w) {i : Nat} {t : ServeThread}
    (ht : w.serves[i]? = some t) : ∀ a ∈ w.wire.streams, a.key = t.key → a.offerId = t.id := by
  intro a ha hkey
  rcases h.known a ha with ⟨j, u, hu, hukey, huid⟩
  have hij := h.keys j i u t hu ht (hukey.trans hkey)
  rw [hij, ht] at hu
  rw [← huid, Option.some.inj hu]

theorem World.Ok.serve (h : World.Ok P w) {i : Nat} {s : State} {e : ServeIo}
    (hideal : Ideal P w (.serve i s e)) : World.Ok P (w.step P (.serve i s e)) := by
  simp only [World.step]
  split
  · exact h
  · rename_i t ht
    have hthread := h.serves i t ht
    have hoffers := h.offer_of_key ht
    have hderived : ∀ salt, e = .connected salt →
        ∀ a ∈ w.wire.streams, NoCollision P a ⟨.sender, t.key, salt, t.id⟩ := by
      rintro salt rfl
      exact hideal.derived _ (by simp only [World.connects, ht, Option.map_some])
    have hunforged : ∀ c input, t.conn = some c →
        (e = .lastWord input ∨ ∃ now, e = .hello input now) →
        Unforged P w.wire c SMALL_FRAME input := by
      intro c input hc hread frame plaintext
      refine hideal.unforged c SMALL_FRAME input frame plaintext ?_
      rcases hread with rfl | ⟨now, rfl⟩
      · simp only [World.reads, ht, Option.bind_some, hc, Option.map_some]
      · simp only [World.reads, ht, Option.bind_some, hc, Option.map_some]
    rcases hthread.step (s := s) h.wire e hderived hoffers hunforged with ⟨hwire, hafter⟩
    have hown := t.step_own (P := P) (s := s) w.wire.streams.length e
    rcases t.step_same (P := P) (s := s) w.wire.streams.length e with ⟨hid, hkey⟩
    have hstill : ∀ (j : Nat) (u : ServeThread), w.serves[j]? = some u →
        ∃ v : ServeThread, (w.serves.set i (t.step P w.wire.streams.length s e).1)[j]? = some v ∧
          v.key = u.key ∧ v.id = u.id := by
      intro j u hu
      have hlt := (List.getElem?_eq_some_iff.1 hu).1
      by_cases hij : i = j
      · rw [← hij] at hu hlt
        rw [ht] at hu
        cases hu
        exact ⟨_, by rw [← hij, List.getElem?_set_self hlt], hkey, hid⟩
      · exact ⟨u, by rw [List.getElem?_set_ne hij]; exact hu, rfl, rfl⟩
    exact {
      wire := hwire
      keys := fun j k a b ha hb hsame => by
        rcases getElem?_set_cases ha with ⟨hj, hanew⟩ | ⟨-, haold⟩
        · rcases getElem?_set_cases hb with ⟨hk, -⟩ | ⟨-, hbold⟩
          · rw [hj, hk]
          · rw [hj]
            refine h.keys i k t b ht hbold ?_
            rw [← hsame, hanew, hkey]
        · rcases getElem?_set_cases hb with ⟨hk, hbnew⟩ | ⟨-, hbold⟩
          · rw [hk]
            refine h.keys j i a t haold ht ?_
            rw [hsame, hbnew, hkey]
          · exact h.keys j k a b haold hbold hsame
      serves := fun j u hu => by
        rcases getElem?_set_cases hu with ⟨rfl, rfl⟩ | ⟨hji, hu⟩
        · exact hafter
        · -- another thread has another key, so none of its frames and no place in the log
          have hne : t.key ≠ u.key := fun hsame => hji (h.keys i j t u ht hu hsame).symm
          refine (h.serves j u hu).notes _ (fun f hf c hc => ?_) fun e' he' hside => ?_
          · rcases (h.serves j u hu).conn c hc with ⟨hholds, -, hckey, -⟩
            cases f with
            | connected ch => trivial
            | sealed e' =>
                rcases (hown _ hf).sealed e' rfl with ⟨d, hd, hlabel⟩
                intro hsame
                apply hne
                rw [← (hthread.conn d hd).2.2.1, ← hlabel, hsame, hckey]
            | opened n m =>
                rcases (hown _ hf).opened n m rfl with ⟨d, hd, hnumber⟩
                intro hsame
                apply hne
                have hchannel := (hthread.conn d hd).1.channel_eq hholds (hnumber.symm.trans hsame)
                rw [← (hthread.conn d hd).2.2.1, hchannel, hckey]
          · rcases (hown _ he').sealed e' rfl with ⟨d, hd, hlabel⟩
            rw [hlabel, (hthread.conn d hd).2.2.1]
            exact hne
      fetches := fun j u hu => by
        -- a frame of the sender's side is none of the receiver's
        refine (h.fetches j u hu).notes _ fun f hf c hc => ?_
        rcases (h.fetches j u hu).conn c hc with ⟨hholds, hcside, -⟩
        cases f with
        | connected ch => trivial
        | sealed e' =>
            rcases (hown _ hf).sealed e' rfl with ⟨d, hd, hlabel⟩
            intro hsame
            have hside := (hthread.conn d hd).2.1
            rw [← hlabel, hsame, hcside] at hside
            cases hside
        | opened n m =>
            rcases (hown _ hf).opened n m rfl with ⟨d, hd, hnumber⟩
            intro hsame
            have hside := (hthread.conn d hd).2.1
            rw [(hthread.conn d hd).1.channel_eq hholds (hnumber.symm.trans hsame), hcside] at hside
            cases hside
      transfers := fun j u hu => by
        rcases h.transfers j u hu with ⟨k, v, hv, hvkey, hvid⟩
        rcases hstill k v hv with ⟨v', hv', hkey', hid'⟩
        exact ⟨k, v', hv', hkey'.trans hvkey, hid'.trans hvid⟩
      known := fun ch hch => by
        rcases mem_streams_notes _ hch with hch | hch
        · rcases h.known ch hch with ⟨k, v, hv, hvkey, hvid⟩
          rcases hstill k v hv with ⟨v', hv', hkey', hid'⟩
          exact ⟨k, v', hv', hkey'.trans hvkey, hid'.trans hvid⟩
        · rcases (hown _ hch).connected ch rfl with ⟨-, hchkey, hchid⟩
          rcases hstill i t ht with ⟨v', hv', hkey', hid'⟩
          exact ⟨i, v', hv', hkey'.trans hchkey.symm, hid'.trans hchid.symm⟩
      apart := h.apart }

theorem World.Ok.fetch (h : World.Ok P w) {j : Nat} {s : State} {e : FetchIo}
    (hideal : Ideal P w (.fetch j s e)) : World.Ok P (w.step P (.fetch j s e)) := by
  simp only [World.step]
  split
  · exact h
  · rename_i t ht
    have hthread := h.fetches j t ht
    have hoffers : ∀ a ∈ w.wire.streams, a.key = t.key → a.offerId = t.id := by
      intro a ha hkey
      rcases h.transfers j t ht with ⟨i, u, hu, hukey, huid⟩
      rw [← huid]
      exact h.offer_of_key hu a ha (hkey.trans hukey.symm)
    have hderived : ∀ salt connected wrote, e = .reached salt connected wrote →
        ∀ a ∈ w.wire.streams, NoCollision P a ⟨.receiver, t.key, salt, t.id⟩ := by
      rintro salt connected wrote rfl
      exact hideal.derived _ (by simp only [World.connects, ht, Option.map_some])
    have hfresh : ∀ salt connected wrote, e = .reached salt connected wrote →
        ∀ a ∈ w.wire.streams, a.side = .receiver → a.salt ≠ salt := by
      rintro salt connected wrote rfl
      exact hideal.freshSalt j s salt connected wrote rfl
    have hunforged : ∀ c input, t.conn = some c → (e = .first input ∨ e = .next input) →
        Unforged P w.wire c PIECE_FRAME input := by
      intro c input hc hread frame plaintext
      refine hideal.unforged c PIECE_FRAME input frame plaintext ?_
      rcases hread with rfl | rfl
      · simp only [World.reads, ht, Option.bind_some, hc, Option.map_some]
      · simp only [World.reads, ht, Option.bind_some, hc, Option.map_some]
    rcases hthread.step (s := s) h.wire e hderived hfresh hoffers hunforged with ⟨hwire, hafter⟩
    have hown := t.step_own (P := P) (s := s) w.wire.streams.length e
    rcases t.step_same (P := P) (s := s) w.wire.streams.length e with ⟨⟨hid, hkey⟩, hconns⟩
    -- a salt that is new is none of a connection another thread holds
    have hnew : ∀ salt connected wrote, e = .reached salt connected wrote →
        ∀ (k : Nat) u c, w.fetches[k]? = some u → u.conn = some c → c.channel.salt ≠ salt := by
      intro salt connected wrote he k u c hu hc
      rcases (h.fetches k u hu).conn c hc with ⟨hholds, hside, -⟩
      exact hfresh salt connected wrote he _ (List.mem_of_getElem? hholds.known) hside
    exact {
      wire := hwire
      keys := h.keys
      serves := fun i u hu => by
        refine (h.serves i u hu).notes _ (fun f hf c hc => ?_) fun e' he' hside => ?_
        · rcases (h.serves i u hu).conn c hc with ⟨hholds, hcside, -⟩
          cases f with
          | connected ch => trivial
          | sealed e' =>
              intro hsame
              rcases (hown _ hf).sealed e' rfl with ⟨d, hd, hlabel⟩ | ⟨_, _, _, -, hlabel⟩
              · have hside := (hthread.conn d hd).2.1
                rw [← hlabel, hsame, hcside] at hside
                cases hside
              · rw [← hsame, hlabel] at hcside
                cases hcside
          | opened n m =>
              rcases (hown _ hf).opened n m rfl with ⟨d, hd, hnumber⟩
              intro hsame
              have hside := (hthread.conn d hd).2.1
              rw [(hthread.conn d hd).1.channel_eq hholds (hnumber.symm.trans hsame), hcside]
                at hside
              cases hside
        · rcases (hown _ he').sealed e' rfl with ⟨d, hd, hlabel⟩ | ⟨_, _, _, -, hlabel⟩
          · rw [hlabel, (hthread.conn d hd).2.1] at hside
            cases hside
          · rw [hlabel] at hside
            cases hside
      fetches := fun k u hu => by
        rcases getElem?_set_cases hu with ⟨rfl, rfl⟩ | ⟨hkj, hu⟩
        · exact hafter
        · refine (h.fetches k u hu).notes _ fun f hf c hc => ?_
          rcases (h.fetches k u hu).conn c hc with ⟨hholds, -⟩
          cases f with
          | connected ch => trivial
          | sealed e' =>
              intro hsame
              rcases (hown _ hf).sealed e' rfl with ⟨d, hd, hlabel⟩ | ⟨salt, co, wr, he, hlabel⟩
              · refine hkj (h.apart k j u t c d hu ht hc hd ?_)
                rw [← hlabel, hsame]
              · refine hnew salt co wr he k u c hu hc ?_
                rw [← hsame, hlabel]
          | opened n m =>
              rcases (hown _ hf).opened n m rfl with ⟨d, hd, hnumber⟩
              intro hsame
              refine hkj (h.apart k j u t c d hu ht hc hd ?_)
              rw [(hthread.conn d hd).1.channel_eq hholds (hnumber.symm.trans hsame)]
      transfers := fun k u hu => by
        rcases getElem?_set_cases hu with ⟨rfl, rfl⟩ | ⟨-, hu⟩
        · rcases h.transfers k t ht with ⟨i, v, hv, hvkey, hvid⟩
          exact ⟨i, v, hv, hvkey.trans hkey.symm, hvid.trans hid.symm⟩
        · exact h.transfers k u hu
      known := fun ch hch => by
        rcases mem_streams_notes _ hch with hch | hch
        · exact h.known ch hch
        · rcases (hown _ hch).connected ch rfl with ⟨-, hchkey, hchid⟩
          rcases h.transfers j t ht with ⟨i, v, hv, hvkey, hvid⟩
          exact ⟨i, v, hv, hvkey.trans hchkey.symm, hvid.trans hchid.symm⟩
      apart := fun k l a b c d ha hb hc hd hsalt => by
        -- the connection of the thread that stepped is its old one, or has the new salt
        have hone : ∀ (m : Nat) (u : FetchThread) (x y : Conn), m ≠ j → w.fetches[m]? = some u →
            u.conn = some x → (t.step P w.wire.streams.length s e).1.conn = some y →
            x.channel.salt ≠ y.channel.salt := by
          intro m u x y hmj hu hx hy hsame
          rcases hconns y hy with ⟨old, hold, hchannel⟩ | ⟨salt, co, wr, he, hysalt⟩
          · refine hmj (h.apart m j u t x old hu ht hx hold ?_)
            rw [hsame, hchannel]
          · exact hnew salt co wr he m u x hu hx (hsame.trans hysalt)
        rcases getElem?_set_cases ha with ⟨hk, hanew⟩ | ⟨hkj, haold⟩
        · rcases getElem?_set_cases hb with ⟨hl, -⟩ | ⟨hlj, hbold⟩
          · rw [hk, hl]
          · rw [hanew] at hc
            exact absurd hsalt.symm (hone l b d c hlj hbold hd hc)
        · rcases getElem?_set_cases hb with ⟨hl, hbnew⟩ | ⟨hlj, hbold⟩
          · rw [hbnew] at hd
            exact absurd hsalt (hone k a c d hkj haold hc hd)
          · exact h.apart k l a b c d haold hbold hc hd hsalt }

theorem World.Ok.step (h : World.Ok P w) {e : Happening} (hideal : Ideal P w e) :
    World.Ok P (w.step P e) := by
  cases e with
  | offered id key => exact h.offered id (hideal.freshKey id key rfl)
  | accepted i => exact h.accepted i
  | serve i s e => exact h.serve hideal
  | fetch j s e => exact h.fetch hideal

/-- On whatever the network delivers, each end opens in order a prefix of what the other end sealed
under the same key and salt for the same offer, and no nonce is used twice under one key. -/
theorem stream_integrity (P : Primitives) (es : List Happening)
    (h : Runs.Along (World.step P) (Ideal P) World.empty es) :
    (∀ n ch, (es.foldl (World.step P) World.empty).wire.streams[n]? = some ch →
      (es.foldl (World.step P) World.empty).wire.openedOn n <+:
        (es.foldl (World.step P) World.empty).wire.sealedBy ch.peer) ∧
    ((es.foldl (World.step P) World.empty).wire.sealed.map
      fun e => (e.message.key, e.message.nonce)).Nodup := by
  have hok := Runs.invariant (World.step P) (World.Ok P) (fun w e hw he => hw.step he) es
    (ok_empty P) h
  exact ⟨hok.wire.inOrder, hok.wire.distinct⟩

/-! A receiver says hello and the sender opens it. -/

namespace Greeting

/-- A frame is the message, with a tag that opens anything. -/
def primitives : Primitives where
  aeadEncrypt := fun _ _ message _ => some (message ++ List.replicate 16 0)
  aeadDecrypt := fun _ _ ciphertext _ => some (ciphertext.take (ciphertext.length - 16))
  sha256 := fun _ => ByteArr.fill 32 0
  hkdfExtract := fun _ _ => ByteArr.fill 32 0
  hkdfExpand := fun prk _ => prk
  edPublic := fun key => key
  edSign := fun _ _ => ByteArr.fill 64 0
  edValid := fun _ => true
  edVerifyStrict := fun _ _ _ => false
  x25519Public := fun key => key
  x25519 := fun _ _ => ByteArr.fill 32 0

def offerId : OfferId := ByteArr.fill 16 5
def key : Key := ByteArr.fill 32 7
def salt : Salt := ByteArr.fill 16 3

def idle : State :=
  State.default (Registry.default none) Table.empty

/-- The frame of the hello, as it goes over the network. -/
def helloFrame : Bytes :=
  be32 33 ++ Stream.hello offerId ++ List.replicate 16 0

def run : List Happening :=
  [.offered offerId key, .accepted 0, .fetch 0 idle (.reached salt true true),
    .serve 0 idle (.connected salt), .serve 0 idle (.hello helloFrame 0)]

theorem readFrame_hello : readFrame SMALL_FRAME helloFrame =
    some (Stream.hello offerId ++ List.replicate 16 0) := by
  decide +kernel

/-- Every step of the run is ideal: the draws are new, and the one frame that opens was sealed. -/
theorem run_ideal : Runs.Along (World.step primitives) (Ideal primitives) World.empty run := by
  refine ⟨?offered, ?accepted, ?reached, ?connected, ?hello, trivial⟩
  case offered =>
    exact {
      freshKey := fun _ _ _ t ht => nomatch ht
      freshSalt := fun _ _ _ _ _ h => nomatch h
      derived := fun _ h => nomatch h
      unforged := fun _ _ _ _ _ h => nomatch h }
  case accepted =>
    exact {
      freshKey := fun _ _ h => nomatch h
      freshSalt := fun _ _ _ _ _ h => nomatch h
      derived := fun _ h => nomatch h
      unforged := fun _ _ _ _ _ h => nomatch h }
  case reached =>
    exact {
      freshKey := fun _ _ h => nomatch h
      freshSalt := fun _ _ _ _ _ _ ch hch => nomatch hch
      derived := fun _ _ other hother => nomatch hother
      unforged := fun _ _ _ _ _ h => nomatch h }
  case connected =>
    exact {
      freshKey := fun _ _ h => nomatch h
      freshSalt := fun _ _ _ _ _ h => nomatch h
      derived := fun ch hch other hother => by
        cases hch
        rcases List.mem_singleton.1 hother with rfl
        exact fun _ => ⟨rfl, rfl⟩
      unforged := fun _ _ _ _ _ h => nomatch h }
  case hello =>
    exact {
      freshKey := fun _ _ h => nomatch h
      freshSalt := fun _ _ _ _ _ h => nomatch h
      derived := fun _ h => nomatch h
      unforged := fun c max input frame plaintext hread hframe hopen => by
        cases hread
        rw [readFrame_hello] at hframe
        cases hframe
        cases hopen
        exact ⟨_, List.mem_singleton_self _, rfl⟩ }

end Greeting

/-- The receiver's hello is what the sender opens, on its end of the connection. -/
theorem stream_integrity_greeting :
    (Greeting.run.foldl (World.step Greeting.primitives) World.empty).wire.openedOn 1 =
        [Stream.hello Greeting.offerId] ∧
      (∀ n ch, (Greeting.run.foldl (World.step Greeting.primitives)
          World.empty).wire.streams[n]? = some ch →
        (Greeting.run.foldl (World.step Greeting.primitives) World.empty).wire.openedOn n <+:
          (Greeting.run.foldl (World.step Greeting.primitives)
            World.empty).wire.sealedBy ch.peer) ∧
      ((Greeting.run.foldl (World.step Greeting.primitives) World.empty).wire.sealed.map
        fun e => (e.message.key, e.message.nonce)).Nodup :=
  ⟨by decide +kernel, stream_integrity Greeting.primitives Greeting.run Greeting.run_ideal⟩

end World

end App
end Asli
