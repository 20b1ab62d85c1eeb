import Asli.Logic.Arrivals
import Asli.Net.Envelope
import Asli.Relay.Buckets
import Asli.Relay.Server
import Mathlib.Data.List.Infix

/-!
# Allowance — which bulk frames a connection may send, `server.ts`

The pieces of images and the messages between devices have two buckets of their own, one that
counts frames and one that counts bytes.

* `WithinAllowance` — no stretch of frames is more than the bursts and what comes in meanwhile.
* `admissions_iff` — a connection that starts with full buckets has every bulk frame let through
  exactly when its frames are within the allowance.
-/

namespace Asli
namespace Relay

open Logic
open Crypto (utf8)

/-! ## A bucket over a run -/

namespace TokenBucket

/-- Every cost is granted at its reading of the clock. -/
def GrantsAll : TokenBucket → List (Int × ℚ) → Prop
  | _, [] => True
  | b, x :: xs => (b.take x.2 x.1).1 = true ∧ (b.take x.2 x.1).2.GrantsAll xs

/-- Readings in seconds. -/
def seconds (xs : List (Int × ℚ)) : List (ℚ × ℚ) :=
  xs.map fun x => ((x.1 : ℚ) / 1000, x.2)

/-- At its clock or later a bucket has what it had and what came in, up to its capacity. -/
theorem refill_tokens {b : TokenBucket} {now : Int} (hfull : b.tokens ≤ b.capacity)
    (h : b.lastRefillMs ≤ now) :
    (b.refill now).tokens =
      min b.capacity
        (b.tokens + b.refillPerSec * ((now : ℚ) / 1000 - (b.lastRefillMs : ℚ) / 1000)) := by
  rcases eq_or_lt_of_le h with heq | hlt
  · rw [refill_tokens_before b now (le_of_eq heq.symm), heq, sub_self, mul_zero, add_zero,
      min_eq_right hfull]
  · have hcame : ((now - b.lastRefillMs : Int) : ℚ) / 1000 * b.refillPerSec =
        b.refillPerSec * ((now : ℚ) / 1000 - (b.lastRefillMs : ℚ) / 1000) := by
      push_cast
      ring
    rw [refill_tokens_after b now hlt, hcame]

/-- Over a run of readings that never go back a bucket is a level that pays. -/
theorem grantsAll_iff {b : TokenBucket} {xs : List (Int × ℚ)} (hfull : b.tokens ≤ b.capacity)
    (hcosts : ∀ x ∈ xs, 0 ≤ x.2)
    (hsorted : (b.lastRefillMs :: xs.map Prod.fst).Pairwise (· ≤ ·)) :
    b.GrantsAll xs ↔
      Arrivals.Served b.capacity b.refillPerSec b.tokens ((b.lastRefillMs : ℚ) / 1000)
        (seconds xs) := by
  induction xs generalizing b with
  | nil => exact Iff.rfl
  | cons x xs ih =>
      rw [List.map_cons, List.pairwise_cons] at hsorted
      have hnow : b.lastRefillMs ≤ x.1 := hsorted.1 x.1 List.mem_cons_self
      have htokens := refill_tokens hfull hnow
      unfold GrantsAll seconds
      rw [List.map_cons, Arrivals.Served, ← htokens, take_fst, decide_eq_true_iff]
      refine and_congr_right fun henough => ?_
      have hgranted : (b.take x.2 x.1).1 = true := by
        rw [take_fst]
        exact decide_eq_true henough
      have hleft : (b.take x.2 x.1).2.tokens = (b.refill x.1).tokens - x.2 := by
        rw [take_granted b x.2 x.1 hgranted]
      have hstill : (b.take x.2 x.1).2.tokens ≤ (b.take x.2 x.1).2.capacity := by
        have hcost := hcosts x List.mem_cons_self
        have hcap : (b.refill x.1).tokens ≤ b.capacity := htokens ▸ min_le_left _ _
        rw [hleft, take_capacity]
        linarith
      rw [ih hstill (fun y hy => hcosts y (List.mem_cons_of_mem x hy))
        (by rw [take_lastRefillMs]; exact hsorted.2), take_capacity, take_refillPerSec, hleft,
        take_lastRefillMs]
      rfl

end TokenBucket

/-! ## What a bulk frame looks like -/

theorem includes_behind (before needle after : Bytes) :
    includes (before ++ needle ++ after) needle = true := by
  unfold includes
  rw [List.any_eq_true]
  refine ⟨needle ++ after, ?_, ?_⟩
  · rw [List.mem_tails, List.append_assoc]
    exact List.suffix_append before (needle ++ after)
  · rw [List.isPrefixOf_iff_prefix]
    exact List.prefix_append needle after

/-- The text of an object starts with its first member. -/
theorem obj_text_starts (key : String) (j : Json) (ms : Json.Members) :
    ∃ rest, (Json.obj ((key, j) :: ms)).text =
      "\x7b" ++ (Json.quote key ++ ":" ++ j.text) ++ rest := by
  have hfirst : ∃ rest, String.intercalate "," (Json.memberTexts ((key, j) :: ms)) =
      Json.quote key ++ ":" ++ j.text ++ rest := by
    rw [Json.memberTexts]
    cases hms : Json.memberTexts ms with
    | nil => exact ⟨"", by simp⟩
    | cons next texts =>
        refine ⟨"," ++ String.intercalate "," (next :: texts), ?_⟩
        rw [String.intercalate_cons_of_ne_nil (List.cons_ne_nil next texts), String.append_assoc]
  rcases hfirst with ⟨rest, hrest⟩
  refine ⟨rest ++ "\x7d", ?_⟩
  rw [Json.text, hrest]
  simp only [String.append_assoc]

theorem utf8_append (a b : String) : utf8 (a ++ b) = utf8 a ++ utf8 b := by
  unfold utf8
  simp

/-- The type of a frame stands right at its start, where a bulk frame is recognised by it. -/
theorem looksLikeMsg_toFrame {m : Net.Message} {type : FrameType} (hbulk : type ∈ BULK_TYPES)
    (hkind : m.kind = type.text) : looksLikeMsg m.toFrame = true := by
  have hstart : ∀ type ∈ BULK_TYPES,
      utf8 ("\x7b" ++ (Json.quote "type" ++ ":" ++ (Json.str type.text).text)) =
          123 :: utf8 ("\"type\":\"" ++ type.text ++ "\"") ∧
        (utf8 ("\"type\":\"" ++ type.text ++ "\"")).length + 1 ≤ 48 := by
    decide +kernel
  rcases hstart type hbulk with ⟨hhead, hshort⟩
  rcases obj_text_starts "type" (.str m.kind) m.members with ⟨rest, htext⟩
  unfold looksLikeMsg
  rw [List.any_eq_true]
  refine ⟨type, hbulk, ?_⟩
  unfold Net.Message.toFrame Net.Message.toJson
  rw [htext, utf8_append, hkind, hhead, List.take_append, List.take_of_length_le hshort]
  exact includes_behind [123] _ _

/-! ## The bulk frames of a connection -/

/-- What becomes of the frames of a connection, one after the other: whether each is let through. -/
def admissions : Session → List (Int × String) → List Bool
  | _, [] => []
  | s, x :: xs =>
      let taken :=
        takeTokens (decide (s.state = .ready) && looksLikeMsg x.2) x.2.utf8ByteSize x.1 s
      taken.1 :: admissions taken.2 xs

/-- A connection that has just been let into its room. -/
def letIn (host : Host) (env : Env) (handle : Handle) (ipKey : String) : Session :=
  { newSession host env handle ipKey with state := .ready }

/-- No stretch of frames is more than the bursts and what comes in from its first frame to its
last, neither in frames nor in bytes. -/
def WithinAllowance (config : Config) (xs : List (Int × String)) : Prop :=
  Arrivals.Smooth (config.transferMsgBurst : ℚ) config.transferMsgsPerSec
      (xs.map fun x => ((x.1 : ℚ) / 1000, 1)) ∧
    Arrivals.Smooth (config.transferByteBurst : ℚ) config.transferBytesPerSec
      (xs.map fun x => ((x.1 : ℚ) / 1000, (x.2.utf8ByteSize : ℚ)))

/-- Bulk frames go by the two bulk buckets, each on its own as long as all are let through. -/
theorem admissions_buckets {s : Session} {xs : List (Int × String)} (hready : s.state = .ready)
    (hbulk : ∀ x ∈ xs, looksLikeMsg x.2 = true) :
    (∀ admitted ∈ admissions s xs, admitted = true) ↔
      s.transferMsgBucket.GrantsAll (xs.map fun x => (x.1, 1)) ∧
        s.transferByteBucket.GrantsAll (xs.map fun x => (x.1, (x.2.utf8ByteSize : ℚ))) := by
  induction xs generalizing s with
  | nil => exact iff_of_true (fun _ h => absurd h List.not_mem_nil) ⟨trivial, trivial⟩
  | cons x xs ih =>
      have hrest : ∀ y ∈ xs, looksLikeMsg y.2 = true :=
        fun y hy => hbulk y (List.mem_cons_of_mem x hy)
      have hlooks : (decide (s.state = .ready) && looksLikeMsg x.2) = true := by
        rw [decide_eq_true hready, hbulk x List.mem_cons_self]
        rfl
      unfold admissions
      dsimp only
      rw [hlooks, List.forall_mem_cons, List.map_cons, List.map_cons, TokenBucket.GrantsAll,
        TokenBucket.GrantsAll]
      unfold takeTokens
      rw [if_pos rfl]
      dsimp only
      cases hmsg : (s.transferMsgBucket.take 1 x.1).1 with
      | false =>
          rw [Bool.not_false, if_pos rfl]
          exact iff_of_false (fun h => absurd h.1 Bool.false_ne_true)
            fun h => absurd h.1.1 Bool.false_ne_true
      | true =>
          rw [Bool.not_true, if_neg Bool.false_ne_true, ih (by exact hready) hrest]
          tauto

theorem letIn_sorted {t0 : Int} {xs : List (Int × String)} {cost : Int × String → ℚ}
    (h : (t0 :: xs.map Prod.fst).Pairwise (· ≤ ·)) :
    (t0 :: (xs.map fun x => (x.1, cost x)).map Prod.fst).Pairwise (· ≤ ·) := by
  rw [List.map_map]
  exact h

/-- A full bucket grants every cost of a run exactly when no stretch of the run is too much. -/
theorem TokenBucket.new_grantsAll_iff {burst perSec : Nat} {t0 : Int} {xs : List (Int × String)}
    {cost : Int × String → ℚ} (hcost : ∀ x, 0 ≤ cost x)
    (hsorted : (t0 :: xs.map Prod.fst).Pairwise (· ≤ ·)) :
    (TokenBucket.new burst perSec t0).GrantsAll (xs.map fun x => (x.1, cost x)) ↔
      Arrivals.Smooth (burst : ℚ) perSec (xs.map fun x => ((x.1 : ℚ) / 1000, cost x)) := by
  have hseconds : seconds (xs.map fun x => (x.1, cost x)) =
      xs.map fun x => ((x.1 : ℚ) / 1000, cost x) := by
    unfold seconds
    rw [List.map_map]
    rfl
  rw [grantsAll_iff (le_refl _) ?_ (letIn_sorted hsorted), hseconds]
  · refine Arrivals.served_full_iff (Nat.cast_nonneg perSec) fun y hy => ?_
    rcases List.mem_map.mp hy with ⟨x, hx, rfl⟩
    have hlater : t0 ≤ x.1 := (List.pairwise_cons.mp hsorted).1 x.1 (List.mem_map_of_mem hx)
    have hcast : (t0 : ℚ) ≤ x.1 := by exact_mod_cast hlater
    exact div_le_div_of_nonneg_right hcast (by norm_num)
  · intro y hy
    rcases List.mem_map.mp hy with ⟨x, -, rfl⟩
    exact hcost x

/-- A connection that was let in and sends bulk frames only, by a clock that does not go back. -/
theorem admissions_iff (host : Host) (env : Env) (handle : Handle) (ipKey : String)
    {xs : List (Int × String)} (hbulk : ∀ x ∈ xs, looksLikeMsg x.2 = true)
    (hsorted : (env.now .dispatch :: xs.map Prod.fst).Pairwise (· ≤ ·)) :
    (∀ admitted ∈ admissions (letIn host env handle ipKey) xs, admitted = true) ↔
      WithinAllowance host.config xs := by
  rw [admissions_buckets rfl hbulk]
  exact and_congr
    (TokenBucket.new_grantsAll_iff (fun _ => zero_le_one) hsorted)
    (TokenBucket.new_grantsAll_iff (fun x => Nat.cast_nonneg x.2.utf8ByteSize) hsorted)

/-- What may arrive from one reading to another. -/
theorem WithinAllowance.bytes {config : Config} {xs : List (Int × String)}
    (h : WithinAllowance config xs) {first last : Int}
    (htimes : ∀ x ∈ xs, first ≤ x.1 ∧ x.1 ≤ last) (hne : xs ≠ []) :
    (((xs.map fun x => x.2.utf8ByteSize).sum : Nat) : ℚ) ≤
      config.transferByteBurst + config.transferBytesPerSec * (((last : ℚ) - first) / 1000) := by
  obtain ⟨x, rest, rfl⟩ := List.exists_cons_of_ne_nil hne
  generalize hcosts : (fun x : Int × String => ((x.1 : ℚ) / 1000, (x.2.utf8ByteSize : ℚ))) = costs
  have hwindow := h.2 [] (costs x) (rest.map costs) [] (by rw [hcosts]; simp)
  have htotal : Arrivals.total (costs x :: rest.map costs) =
      ((((x :: rest).map fun x => x.2.utf8ByteSize).sum : Nat) : ℚ) := by
    have hcast := map_list_sum (Nat.castAddMonoidHom ℚ)
      ((x :: rest).map fun x => x.2.utf8ByteSize)
    rw [List.map_map] at hcast
    rw [← List.map_cons, Arrivals.total, List.map_map, ← hcosts]
    exact hcast.symm
  have hlast : ((costs x :: rest.map costs).getLast (List.cons_ne_nil _ _)).1 ≤
      (last : ℚ) / 1000 := by
    have hmem : (costs x :: rest.map costs).getLast (List.cons_ne_nil _ _) ∈
        (x :: rest).map costs := List.getLast_mem (List.cons_ne_nil (costs x) (rest.map costs))
    rcases List.mem_map.mp hmem with ⟨y, hy, heq⟩
    have hbound : (y.1 : ℚ) ≤ last := by exact_mod_cast (htimes y hy).2
    rw [← heq, ← hcosts]
    exact div_le_div_of_nonneg_right hbound (by norm_num)
  have hfirst : (first : ℚ) / 1000 ≤ (costs x).1 := by
    have hbound : (first : ℚ) ≤ x.1 := by exact_mod_cast (htimes x List.mem_cons_self).1
    rw [← hcosts]
    exact div_le_div_of_nonneg_right hbound (by norm_num)
  rw [htotal] at hwindow
  refine hwindow.trans (add_le_add_right ?_ _)
  refine mul_le_mul_of_nonneg_left ?_ (Nat.cast_nonneg config.transferBytesPerSec)
  linarith

end Relay
end Asli
