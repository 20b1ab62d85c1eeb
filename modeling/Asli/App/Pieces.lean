import Asli.App.OfferedOnce

/-!
# Pieces — the arithmetic of a file in pieces, `asli-app/src/transfer/mod.rs`

`Admits` says that an offer was recorded.  `PiecesFit` is what the pieces of an offer come to:
their lengths, the counters that number them, and the run of `take_piece` over all of them.
-/

namespace Asli
namespace App

open Logic
open Crypto (Primitives Offer AckState)

/-! ## Cutting a size -/

section Cut

variable {size c : Nat}

/-- The lengths of the first pieces add up to what they cover of the size. -/
theorem sum_pieces (size c n : Nat) :
    ((List.range n).map fun i => min (size - i * c) c).sum = min size (n * c) := by
  induction n with
  | zero => rw [Nat.zero_mul, Nat.min_zero]; rfl
  | succ n ih =>
      rw [List.range_succ, List.map_append, List.sum_append, ih]
      have hnext : (n + 1) * c = n * c + c := Nat.succ_mul n c
      simp only [List.map_cons, List.map_nil, List.sum_cons, List.sum_nil]
      omega

/-- Rounded up, the pieces cover the size. -/
theorem le_pieces_mul (hc : 0 < c) : size ≤ (size + c - 1) / c * c := by
  have hround : size + c - 1 < (size + c - 1) / c * c + c := Nat.lt_div_mul_add hc
  omega

/-- A piece that is not the last ends within the size. -/
theorem piece_end_lt (hc : 0 < c) {i : Nat} (h : i + 1 < (size + c - 1) / c) :
    (i + 1) * c < size := by
  have hcount : (i + 2) * c ≤ size + c - 1 := (Nat.le_div_iff_mul_le hc).mp h
  have hnext : (i + 2) * c = (i + 1) * c + c := Nat.succ_mul (i + 1) c
  omega

/-- Up to 2³² bytes, only one byte a piece makes 2³² pieces. -/
theorem pieces_lt_iff (hc : 0 < c) (hsize : size ≤ 2 ^ 32) :
    (size + c - 1) / c < 2 ^ 32 ↔ ¬(size = 2 ^ 32 ∧ c = 1) := by
  rw [Nat.div_lt_iff_lt_mul hc]
  constructor
  · intro h hmost
    rw [hmost.1, hmost.2] at h
    exact absurd h (by decide)
  · intro hless
    omega

end Cut

/-! ## The pieces of an offer -/

/-- `on_offer` records the offer that a body is. -/
def Admits (P : Primitives) (s : State) (body : Bytes) (d : MessageDraws) (offer : Offer) : Prop :=
  SignedOffer P s body offer ∧ (s.onOffer P body d).2.isSome = true

/-- A piece as it reaches `take_piece`. -/
structure PieceIn where
  data : Bytes
  io : FileDraws
  now : Instant

/-- Pieces go to `take_piece` one after another, up to the first that ends the transfer or is not
taken. -/
def takePieces (P : Primitives) :
    List PieceIn → Incoming → Disk → Incoming × Disk × Except String (Option AckState)
  | [], i, disk => (i, disk, .ok none)
  | piece :: rest, i, disk =>
      match takePiece P i piece.data piece.io piece.now disk with
      | (i, disk, .ok none) => takePieces P rest i disk
      | (i, disk, ended) => (i, disk, ended)

/-- The first pieces of an offer: of the lengths it gives them, and the file takes them. -/
structure FirstPieces (offer : Offer) (pieces : List PieceIn) : Prop where
  length : ∀ (n : Nat) (p : PieceIn), pieces[n]? = some p → p.data.length = pieceLen offer n
  written : ∀ p ∈ pieces, p.io.write = .ok ()

/-- A record that its pieces can come to: a temporary file, and nothing in it. -/
structure Incoming.Opened (i : Incoming) (offer : Offer) : Prop where
  offer_eq : i.offer = offer
  part : i.part.isSome = true
  hasher : i.hasher = []
  received : i.received = 0
  written : i.written = 0

/-- The lengths of an offer's pieces are its size, the counters hold every count of them, and all of
them, one after another, are the file. -/
structure PiecesFit (P : Primitives) (offer : Offer) : Prop where
  sum : ((List.range offer.chunkCount).map (pieceLen offer)).sum = offer.size.toNat
  index : ∀ i < offer.chunkCount, i < 2 ^ 32
  count : offer.chunkCount < 2 ^ 32
  some_piece : 1 ≤ offer.chunkCount
  full : ∀ i, i + 1 < offer.chunkCount → pieceLen offer i = offer.chunkBytes.toNat
  counts : ∀ i disk pieces, i.Opened offer → FirstPieces offer pieces →
    pieces.length < offer.chunkCount →
      (takePieces P pieces i disk).2.2 = .ok none ∧
        (takePieces P pieces i disk).1.received = pieces.length
  completes : ∀ i disk pieces, i.Opened offer → FirstPieces offer pieces →
    pieces.length = offer.chunkCount →
    P.sha256 (pieces.flatMap fun p => p.data) = offer.sha256 →
    (∀ p ∈ pieces, p.io.sync = .ok () ∧ p.io.rename = .ok ()) →
      (takePieces P pieces i disk).2.2 = .ok (some .done) ∧
        (takePieces P pieces i disk).1.received = offer.chunkCount

/-! ## One piece after another -/

section Take

variable {P : Primitives} {offer : Offer}

/-- What a record has of an offer once some pieces are in. -/
structure Incoming.Partway (i : Incoming) (offer : Offer) (done : List PieceIn) : Prop where
  offer_eq : i.offer = offer
  part : ∃ part, i.part = some part
  hasher : i.hasher = done.flatMap fun p => p.data
  received : i.received = done.length
  written : i.written = (done.map fun p => p.data.length).sum

theorem Incoming.Opened.partway {i : Incoming} (h : i.Opened offer) : i.Partway offer [] :=
  ⟨h.offer_eq, Option.isSome_iff_exists.mp h.part, h.hasher, h.received, h.written⟩

/-- Another piece in, as far as the counter of pieces goes. -/
theorem Incoming.Partway.fed {i : Incoming} {done : List PieceIn} {p : PieceIn} {part : Part}
    (h : i.Partway offer done) (hfits : done.length + 1 < 2 ^ 32) (stage : Stage) :
    ({ i.fed part p.data p.now with stage := stage } : Incoming).Partway offer (done ++ [p]) where
  offer_eq := h.offer_eq
  part := ⟨_, rfl⟩
  hasher := by
    rw [List.flatMap_append, List.flatMap_singleton, ← h.hasher]
    rfl
  received := by
    rw [List.length_append, List.length_singleton, ← Nat.mod_eq_of_lt hfits, ← h.received]
    rfl
  written := by
    rw [List.map_append, List.sum_append, ← h.written]
    rfl

/-- A piece before the last is counted, and the transfer goes on. -/
theorem takePiece_more {i : Incoming} {done : List PieceIn} {p : PieceIn} (disk : Disk)
    (h : i.Partway offer done) (hlen : p.data.length = pieceLen offer done.length)
    (hwrite : p.io.write = .ok ()) (hmore : done.length + 1 < offer.chunkCount)
    (hfits : offer.chunkCount ≤ 2 ^ 32) :
    (takePiece P i p.data p.io p.now disk).2.2 = .ok none ∧
      (takePiece P i p.data p.io p.now disk).1.Partway offer (done ++ [p]) := by
  rcases h.part with ⟨part, hpart⟩
  have hlen' : p.data.length = pieceLen i.offer i.received := by
    rw [h.offer_eq, h.received]
    exact hlen
  have hleft : i.received < i.offer.chunkCount := by
    rw [h.offer_eq, h.received]
    exact Nat.lt_of_succ_lt hmore
  have hcount : (i.received + 1) % 2 ^ 32 = done.length + 1 := by
    rw [h.received]
    exact Nat.mod_eq_of_lt (Nat.lt_of_lt_of_le hmore hfits)
  have hnext : (i.received + 1) % 2 ^ 32 ≠ i.offer.chunkCount := by
    rw [hcount, h.offer_eq]
    exact Nat.ne_of_lt hmore
  have htakes : ∃ ended, (takePiece P i p.data p.io p.now disk).2.2 = .ok ended :=
    takePiece_takes hpart hlen' hleft hwrite
  rcases htakes with ⟨ended, hok⟩
  rw [hok]
  have htook := takePiece_ok hok
  revert htook
  generalize (takePiece P i p.data p.io p.now disk).1 = i'
  generalize (takePiece P i p.data p.io p.now disk).2.1 = disk'
  intro htook
  cases htook with
  | more => exact ⟨rfl, h.fed (Nat.lt_of_lt_of_le hmore hfits) _⟩
  | kept target hpart hlen hleft hlast => exact absurd hlast hnext
  | thrown why hpart hlen hleft hlast => exact absurd hlast hnext

/-- The last piece of a file that is what its offer says is kept. -/
theorem takePiece_last {i : Incoming} {done : List PieceIn} {p : PieceIn} (disk : Disk)
    (h : i.Partway offer done) (hlen : p.data.length = pieceLen offer done.length)
    (hwrite : p.io.write = .ok ()) (hlast : done.length + 1 = offer.chunkCount)
    (hfits : offer.chunkCount < 2 ^ 32)
    (hsum : ((done ++ [p]).map fun p => p.data.length).sum = offer.size.toNat)
    (hsha : P.sha256 ((done ++ [p]).flatMap fun p => p.data) = offer.sha256)
    (hsync : p.io.sync = .ok ()) (hrename : p.io.rename = .ok ()) :
    (takePiece P i p.data p.io p.now disk).2.2 = .ok (some .done) ∧
      (takePiece P i p.data p.io p.now disk).1.received = offer.chunkCount := by
  rcases h.part with ⟨part, hpart⟩
  have hsize : ¬(p.data.length ≠ pieceLen i.offer i.received ∨
      i.received ≥ i.offer.chunkCount) := by
    rw [h.offer_eq, h.received, not_or, not_not, Nat.not_le]
    exact ⟨hlen, Nat.lt_of_succ_le (Nat.le_of_eq hlast)⟩
  have hcount : (i.received + 1) % 2 ^ 32 = i.offer.chunkCount := by
    rw [h.received, h.offer_eq, hlast]
    exact Nat.mod_eq_of_lt hfits
  -- what was fed to the hasher and what was counted are the offer's
  have hgood : ¬(P.sha256 (i.hasher ++ p.data) ≠ i.offer.sha256 ∨
      i.written + p.data.length ≠ i.offer.size.toNat) := by
    rw [not_or, not_not, not_not, h.offer_eq, h.hasher, h.written, ← hsha, ← hsum]
    rw [List.flatMap_append, List.flatMap_singleton, List.map_append, List.sum_append]
    exact ⟨rfl, rfl⟩
  unfold takePiece
  rw [if_neg hsize]
  simp only [hpart, hwrite]
  rw [if_pos hcount]
  unfold finishIncoming
  simp only
  rw [if_neg hgood]
  simp only [hsync, hrename]
  exact ⟨trivial, hcount.trans (congrArg Offer.chunkCount h.offer_eq)⟩

/-- A piece that does not end the transfer leaves the rest to the pieces after it. -/
theorem takePieces_cons {p : PieceIn} {i : Incoming} {disk : Disk}
    (h : (takePiece P i p.data p.io p.now disk).2.2 = .ok none) (rest : List PieceIn) :
    takePieces P (p :: rest) i disk =
      takePieces P rest (takePiece P i p.data p.io p.now disk).1
        (takePiece P i p.data p.io p.now disk).2.1 := by
  rw [takePieces]
  rcases htake : takePiece P i p.data p.io p.now disk with ⟨i', disk', ended⟩
  rw [htake] at h
  cases h
  rfl

/-- Before the last piece each one is counted, and the pieces after it follow. -/
theorem takePieces_more {i : Incoming} {done todo : List PieceIn} (rest : List PieceIn)
    (disk : Disk) (h : i.Partway offer done) (hpieces : FirstPieces offer (done ++ todo))
    (hmore : (done ++ todo).length < offer.chunkCount) (hfits : offer.chunkCount ≤ 2 ^ 32) :
    ∃ i' disk', takePieces P (todo ++ rest) i disk = takePieces P rest i' disk' ∧
      i'.Partway offer (done ++ todo) := by
  induction todo generalizing i disk done with
  | nil =>
      rw [List.append_nil]
      exact ⟨i, disk, rfl, h⟩
  | cons p todo ih =>
      have hlen : p.data.length = pieceLen offer done.length := by
        apply hpieces.length
        rw [List.getElem?_append_right (Nat.le_refl _), Nat.sub_self]
        rfl
      have hwrite : p.io.write = .ok () :=
        hpieces.written p (List.mem_append_right _ List.mem_cons_self)
      have hnext : done.length + 1 < offer.chunkCount := by
        rw [List.length_append, List.length_cons] at hmore
        omega
      rcases takePiece_more (P := P) disk h hlen hwrite hnext hfits with ⟨hok, hfed⟩
      rw [List.cons_append, takePieces_cons hok]
      rw [List.append_cons] at hpieces hmore ⊢
      exact ih _ hfed hpieces hmore

end Take

/-! ## Which offers fit -/

section Fit

variable {P : Primitives} {offer : Offer}

theorem chunkCount_eq (hc : 0 < offer.chunkBytes.toNat) :
    offer.chunkCount =
      max ((offer.size.toNat + offer.chunkBytes.toNat - 1) / offer.chunkBytes.toNat) 1 := by
  have hne : offer.chunkBytes ≠ 0 := by
    intro hzero
    rw [hzero] at hc
    exact absurd hc (by decide)
  rw [Offer.chunkCount, if_neg hne]

/-- The lengths that pieces have, from the lengths that they must have. -/
theorem FirstPieces.lengths {pieces : List PieceIn} (h : FirstPieces offer pieces) :
    (pieces.map fun p => p.data.length) = (List.range pieces.length).map (pieceLen offer) := by
  apply List.ext_getElem?
  intro n
  rw [List.getElem?_map, List.getElem?_map]
  cases hp : pieces[n]? with
  | none =>
      have hrange : (List.range pieces.length)[n]? = none := by
        rw [List.getElem?_eq_none_iff, List.length_range]
        exact List.getElem?_eq_none_iff.mp hp
      rw [hrange]
      rfl
  | some p =>
      rcases List.getElem?_eq_some_iff.mp hp with ⟨hn, -⟩
      rw [List.getElem?_range hn]
      exact congrArg some (h.length n p hp)

/-- Offers of up to 2³² bytes fit, as long as the counter holds their pieces. -/
theorem piecesFit (hc : 0 < offer.chunkBytes.toNat) (hfits : offer.chunkCount < 2 ^ 32) :
    PiecesFit P offer := by
  have hcount := chunkCount_eq hc
  have hcover : offer.size.toNat ≤ offer.chunkCount * offer.chunkBytes.toNat := by
    rw [hcount]
    calc offer.size.toNat
        ≤ (offer.size.toNat + offer.chunkBytes.toNat - 1) / offer.chunkBytes.toNat *
            offer.chunkBytes.toNat := le_pieces_mul hc
      _ ≤ _ := Nat.mul_le_mul_right _ (Nat.le_max_left _ _)
  have hsome : 1 ≤ offer.chunkCount := by
    rw [hcount]
    exact Nat.le_max_right _ _
  have hsum : ((List.range offer.chunkCount).map (pieceLen offer)).sum = offer.size.toNat := by
    rw [show pieceLen offer = fun i =>
      min (offer.size.toNat - i * offer.chunkBytes.toNat) offer.chunkBytes.toNat from rfl,
      sum_pieces, Nat.min_eq_left hcover]
  refine ⟨hsum, fun i hi => hi.trans hfits, hfits, hsome, ?_, ?_, ?_⟩
  · intro i hi
    have hi' : i + 1 <
        (offer.size.toNat + offer.chunkBytes.toNat - 1) / offer.chunkBytes.toNat := by
      rw [hcount] at hi
      omega
    have hend := piece_end_lt hc hi'
    rw [Nat.succ_mul] at hend
    rw [pieceLen, Nat.min_eq_right]
    omega
  · intro i disk pieces hopened hpieces hmore
    rcases takePieces_more (P := P) [] disk hopened.partway hpieces hmore (Nat.le_of_lt hfits)
      with ⟨i', disk', heq, hpartway⟩
    rw [List.append_nil] at heq
    rw [heq]
    exact ⟨rfl, hpartway.received⟩
  · intro i disk pieces hopened hpieces hall hsha hkept
    -- the last piece stands apart: it is the one that ends the transfer
    rcases List.eq_nil_or_concat pieces with rfl | ⟨first, p, rfl⟩
    · rw [← hall] at hsome
      exact absurd hsome (by decide)
    rw [List.concat_eq_append] at *
    rw [List.length_append, List.length_singleton] at hall
    have hfirst : FirstPieces offer first := by
      constructor
      · intro n q hq
        refine hpieces.length n q ?_
        rw [List.getElem?_append_left (List.getElem?_eq_some_iff.mp hq).1]
        exact hq
      · intro q hq
        exact hpieces.written q (List.mem_append_left _ hq)
    rcases takePieces_more (P := P) [p] disk hopened.partway hfirst
      (Nat.lt_of_succ_le (Nat.le_of_eq hall)) (Nat.le_of_lt hfits) with ⟨i', disk', heq, hpartway⟩
    have hp : p ∈ first ++ [p] := List.mem_append_right _ List.mem_cons_self
    have hlen : p.data.length = pieceLen offer first.length := by
      apply hpieces.length
      rw [List.getElem?_append_right (Nat.le_refl _), Nat.sub_self]
      rfl
    have hwhole : ((first ++ [p]).map fun p => p.data.length).sum = offer.size.toNat := by
      rw [hpieces.lengths, List.length_append, List.length_singleton, hall]
      exact hsum
    rcases takePiece_last (P := P) disk' hpartway hlen (hpieces.written p hp) hall hfits hwhole hsha
      (hkept p hp).1 (hkept p hp).2 with ⟨hdone, hreceived⟩
    rw [heq, takePieces]
    rcases htake : takePiece P i' p.data p.io p.now disk' with ⟨i'', disk'', ended⟩
    rw [htake] at hdone hreceived
    cases hdone
    exact ⟨rfl, hreceived⟩

/-- An offer that is recorded is of no more than 4 GiB, in pieces of at least one byte. -/
theorem Admits.bounds {s : State} {body : Bytes} {d : MessageDraws}
    (h : Admits P s body d offer) :
    offer.size.toNat ≤ 2 ^ 32 ∧ 0 < offer.chunkBytes.toNat := by
  rcases h with ⟨hsigned, hasked⟩
  rcases Option.isSome_iff_exists.mp hasked with ⟨asked, hasked⟩
  rcases onOffer_reports hsigned hasked with ⟨-, -, habsent, hlisted⟩
  have hreceives := State.onOffer_receives (P := P) (s := s) body d offer.offerId
  rw [habsent] at hreceives
  rcases Option.isSome_iff_exists.mp hlisted with ⟨i, hi⟩
  rw [hi] at hreceives
  constructor
  · cases hreceives with
    | offered he hother hid hsize =>
        -- the body is one offer, whoever reads it
        cases he
        rw [hsigned.unique hother]
        exact hsize
  · rcases hsigned with ⟨link, from_, pinned, -, -, -, hdecode⟩
    exact (Offer.chunkBytes_of_decode P hdecode).1

theorem chunkCount_lt_iff (hsize : offer.size.toNat ≤ 2 ^ 32) (hc : 0 < offer.chunkBytes.toNat) :
    offer.chunkCount < 2 ^ 32 ↔ ¬(offer.size.toNat = 2 ^ 32 ∧ offer.chunkBytes.toNat = 1) := by
  calc offer.chunkCount < 2 ^ 32
      ↔ (offer.size.toNat + offer.chunkBytes.toNat - 1) / offer.chunkBytes.toNat < 2 ^ 32 := by
        rw [chunkCount_eq hc]
        omega
    _ ↔ _ := pieces_lt_iff hc hsize

/-- The pieces of an offer that is recorded fit, unless it is of 4 GiB in pieces of one byte. -/
theorem admitted_pieces_iff (P : Primitives) (s : State) (body : Bytes) (d : MessageDraws)
    (offer : Offer) (h : Admits P s body d offer) :
    PiecesFit P offer ↔ ¬(offer.size.toNat = 2 ^ 32 ∧ offer.chunkBytes.toNat = 1) := by
  rcases h.bounds with ⟨hsize, hc⟩
  constructor
  · intro hfit
    exact (chunkCount_lt_iff hsize hc).mp hfit.count
  · intro hless
    exact piecesFit hc ((chunkCount_lt_iff hsize hc).mpr hless)

/-- Past what the counter holds, no piece ends a transfer. -/
theorem takePiece_never_ends {i : Incoming} (hmany : 2 ^ 32 ≤ i.offer.chunkCount) (data : Bytes)
    (io : FileDraws) (now : Instant) (disk : Disk) (state : AckState) :
    (takePiece P i data io now disk).2.2 ≠ .ok (some state) := by
  intro hended
  have htook := takePiece_ok hended
  have hcount : (i.received + 1) % 2 ^ 32 < i.offer.chunkCount :=
    Nat.lt_of_lt_of_le (Nat.mod_lt _ (by decide)) hmany
  revert htook
  generalize (takePiece P i data io now disk).1 = i'
  generalize (takePiece P i data io now disk).2.1 = disk'
  intro htook
  cases htook with
  | kept target hpart hlen hleft hlast => exact absurd hlast (Nat.ne_of_lt hcount)
  | thrown why hpart hlen hleft hlast => exact absurd hlast (Nat.ne_of_lt hcount)

end Fit

namespace WidestOffer

open RepeatedOffer

/-- 4 GiB, one byte a piece, as the phone signed it. -/
def widest : Bytes :=
  Crypto.signInto primitives phoneKeys Crypto.LABEL_OFFER (account.roomIdBytes primitives)
    (1 :: (file.1 ++ (phone.1 ++ (laptop.1 ++ (be64 4294967296 ++ ((ByteArr.fill 32 0).1 ++
      (be32 1 ++ (be64 0 ++ ([1, 98] ++ ([0, 1, 110] ++ [0]))))))))))

def widestOffer : Offer :=
  { offered with size := 4294967296, chunkBytes := 1 }

theorem asked_widest :
    (attached.onOffer primitives widest draws).2 = some (phone, "phone", "n", 4294967296) := by
  decide +kernel

theorem widest_admitted : Admits primitives attached widest draws widestOffer := by
  have hpinned : ∃ pinned, devices.pinnedAs phone = some pinned ∧
      pinned.signPub = phoneKeys.signPub primitives := by
    refine ⟨_, rfl, ?_⟩
    decide +kernel
  rcases hpinned with ⟨pinned, hpinned, hkey⟩
  refine ⟨⟨_, phone, pinned, rfl, by decide +kernel, hpinned, ?_⟩, by rw [asked_widest]; rfl⟩
  rw [hkey]
  decide +kernel

/-- Its pieces are one more than the counter holds. -/
theorem widest_overflows :
    Admits primitives attached widest draws widestOffer ∧ ¬PiecesFit primitives widestOffer := by
  refine ⟨widest_admitted, fun hfit => ?_⟩
  have hcount : widestOffer.chunkCount = 2 ^ 32 := by decide +kernel
  exact absurd hfit.count (by rw [hcount]; exact Nat.lt_irrefl _)

/-- Three bytes in one piece. -/
theorem admitted_pieces_offered :
    PiecesFit primitives offered ↔
      ¬(offered.size.toNat = 2 ^ 32 ∧ offered.chunkBytes.toNat = 1) := by
  have hasked : (attached.onOffer primitives offer draws).2 = some asked := by decide +kernel
  exact admitted_pieces_iff primitives attached offer draws offered
    ⟨signed_of_link rfl rfl, by rw [hasked]; rfl⟩

end WidestOffer

end App
end Asli
