import Asli.Logic.Bytes
import Mathlib.Data.Nat.Bitwise

/-!
# Digits — the number a run of digits spells

Byte strings of one length and runs of five-bit values of one length are determined by the
numbers they spell.
-/

namespace Asli
namespace Logic

/-! ## Bytes -/

theorem ofBe_append (b : Bytes) (x : UInt8) : ofBe (b ++ [x]) = ofBe b * 256 + x.toNat := by
  simp [ofBe]

theorem foldl_ofBe (b : Bytes) (acc : Nat) :
    b.foldl (fun acc x => acc * 256 + x.toNat) acc = acc * 256 ^ b.length + ofBe b := by
  induction b generalizing acc with
  | nil => simp [ofBe]
  | cons x b ih =>
      have htail := ih (0 * 256 + x.toNat)
      rw [ofBe, List.foldl_cons, List.foldl_cons, ih, htail, List.length_cons, pow_succ]
      ring

theorem ofBe_cons (x : UInt8) (b : Bytes) : ofBe (x :: b) = x.toNat * 256 ^ b.length + ofBe b := by
  rw [ofBe, List.foldl_cons, foldl_ofBe]
  ring

theorem ofBe_lt (b : Bytes) : ofBe b < 256 ^ b.length := by
  induction b with
  | nil => simp [ofBe]
  | cons x b ih =>
      have hx := x.toNat_lt
      rw [ofBe_cons, List.length_cons, pow_succ]
      nlinarith

/-- Byte strings of one length are determined by the number they spell. -/
theorem ofBe_inj {a b : Bytes} (hlength : a.length = b.length) (h : ofBe a = ofBe b) : a = b := by
  induction a generalizing b with
  | nil =>
      cases b with
      | nil => rfl
      | cons => cases hlength
  | cons x a ih =>
      cases b with
      | nil => cases hlength
      | cons y b =>
          have htail : a.length = b.length := Nat.succ_inj.1 hlength
          have ha := ofBe_lt a
          have hb := ofBe_lt b
          rw [ofBe_cons, ofBe_cons, htail] at h
          rw [htail] at ha
          have hdiv : x.toNat = y.toNat := by
            have hx : (x.toNat * 256 ^ b.length + ofBe a) / 256 ^ b.length = x.toNat :=
              Nat.div_eq_of_lt_le (by omega) (by rw [Nat.add_mul, Nat.one_mul]; omega)
            have hy : (y.toNat * 256 ^ b.length + ofBe b) / 256 ^ b.length = y.toNat :=
              Nat.div_eq_of_lt_le (by omega) (by rw [Nat.add_mul, Nat.one_mul]; omega)
            rw [← hx, ← hy, h]
          have hrest : ofBe a = ofBe b := by
            rw [hdiv] at h
            omega
          rw [UInt8.toNat_inj.1 hdiv, ih htail hrest]

/-- Eight bytes are the number they spell, written out. -/
theorem be64_ofBe {b : Bytes} (h : b.length = 8) : be64 (UInt64.ofNat (ofBe b)) = b := by
  have hlt := ofBe_lt b
  rw [h] at hlt
  apply ofBe_inj
  · rw [be64_length, h]
  · rw [ofBe_be64, UInt64.toNat_ofNat_of_lt' hlt]

theorem be32_ofBe {b : Bytes} (h : b.length = 4) : be32 (UInt32.ofNat (ofBe b)) = b := by
  have hlt := ofBe_lt b
  rw [h] at hlt
  apply ofBe_inj
  · rw [be32_length, h]
  · rw [ofBe_be32, UInt32.toNat_ofNat_of_lt' hlt]

theorem beBytes_ofBe {b : Bytes} {n : Nat} (h : b.length = n) : beBytes n (ofBe b) = b := by
  have hlt := ofBe_lt b
  rw [h] at hlt
  apply ofBe_inj
  · rw [beBytes_length, h]
  · rw [ofBe_beBytes_of_lt hlt]

/-- The number a run of five-bit values spells, after what `acc` spells. -/
def base32 (acc : Nat) (vs : List Nat) : Nat :=
  vs.foldl (fun n v => n * 32 + v) acc

@[simp] theorem base32_nil (acc : Nat) : base32 acc [] = acc := rfl

@[simp] theorem base32_cons (acc v : Nat) (vs : List Nat) :
    base32 acc (v :: vs) = base32 (acc * 32 + v) vs := rfl

theorem base32_append (acc : Nat) (vs ws : List Nat) :
    base32 acc (vs ++ ws) = base32 (base32 acc vs) ws :=
  List.foldl_append

/-- A buffer moved up by `k` bits, with a smaller number in the bits that came free. -/
theorem shiftLeft_or (a k x : Nat) (hx : x < 2 ^ k) : a <<< k ||| x = a * 2 ^ k + x := by
  rw [← Nat.shiftLeft_add_eq_or_of_lt hx, Nat.shiftLeft_eq]

theorem base32_lt {vs : List Nat} (h : ∀ v ∈ vs, v < 32) (acc : Nat) :
    base32 acc vs < (acc + 1) * 32 ^ vs.length := by
  induction vs generalizing acc with
  | nil => simp
  | cons v vs ih =>
      have hv := h v List.mem_cons_self
      have hrest := ih (fun w hw => h w (List.mem_cons_of_mem v hw)) (acc * 32 + v)
      calc base32 acc (v :: vs)
          < (acc * 32 + v + 1) * 32 ^ vs.length := hrest
        _ ≤ (acc + 1) * 32 * 32 ^ vs.length := Nat.mul_le_mul_right _ (by omega)
        _ = (acc + 1) * 32 ^ (vs.length + 1) := by ring

theorem base32_acc (acc : Nat) (vs : List Nat) :
    base32 acc vs = acc * 32 ^ vs.length + base32 0 vs := by
  induction vs generalizing acc with
  | nil => simp
  | cons v vs ih =>
      rw [base32_cons, base32_cons, ih, ih (0 * 32 + v), List.length_cons]
      ring

/-- Runs of five-bit values of one length are determined by the number they spell. -/
theorem base32_inj {vs ws : List Nat} (hvs : ∀ v ∈ vs, v < 32) (hws : ∀ w ∈ ws, w < 32)
    (hlength : vs.length = ws.length) (h : base32 0 vs = base32 0 ws) : vs = ws := by
  induction vs generalizing ws with
  | nil => exact (List.length_eq_zero_iff.mp hlength.symm).symm
  | cons v vs ih =>
      cases ws with
      | nil => cases hlength
      | cons w ws =>
          have htail : vs.length = ws.length := Nat.succ_inj.mp hlength
          have hvs' : ∀ x ∈ vs, x < 32 := fun x hx => hvs x (List.mem_cons_of_mem v hx)
          have hws' : ∀ x ∈ ws, x < 32 := fun x hx => hws x (List.mem_cons_of_mem w hx)
          have hlow := base32_lt hvs' 0
          have hlow' := base32_lt hws' 0
          rw [base32_cons, base32_cons, base32_acc, base32_acc (0 * 32 + w), htail] at h
          rw [htail] at hlow
          simp only [Nat.zero_mul, Nat.zero_add, Nat.one_mul] at h hlow hlow'
          have hpos : 0 < 32 ^ ws.length := by positivity
          -- the first digit is the quotient, the others the rest
          have hfirst : v = w := by
            have hdiv := congrArg (· / 32 ^ ws.length) h
            simp only [Nat.mul_comm _ (32 ^ ws.length), Nat.mul_add_div hpos,
              Nat.div_eq_of_lt hlow, Nat.div_eq_of_lt hlow', Nat.add_zero] at hdiv
            exact hdiv
          rw [hfirst, ih hvs' hws' htail (by rw [hfirst] at h; omega)]

/-! ## Reading a number -/

/-- A number read place by place is below the base to the number of places. -/
theorem foldlM_place {α δ : Type} {f : α → Option δ} {v : δ → Nat} {b : Nat}
    (hv : ∀ x d, f x = some d → v d < b) {xs : List α} {value n : Nat}
    (h : xs.foldlM (fun value x => (f x).map fun d => value * b + v d) value = some n) :
    n < (value + 1) * b ^ xs.length ∧ ∀ x ∈ xs, (f x).isSome = true := by
  induction xs generalizing value with
  | nil =>
      cases h
      exact ⟨by simp, fun x hx => by cases hx⟩
  | cons x xs ih =>
      rw [List.foldlM_cons] at h
      rcases Option.bind_eq_some_iff.mp h with ⟨next, hnext, hrest⟩
      rcases Option.map_eq_some_iff.mp hnext with ⟨d, hd, rfl⟩
      rcases ih hrest with ⟨hlt, hall⟩
      constructor
      · have hstep : value * b + v d + 1 ≤ (value + 1) * b := by
          rw [Nat.add_mul, Nat.one_mul, Nat.add_assoc]
          exact Nat.add_le_add_left (hv x d hd) _
        calc n < (value * b + v d + 1) * b ^ xs.length := hlt
          _ ≤ (value + 1) * b * b ^ xs.length := Nat.mul_le_mul_right _ hstep
          _ = (value + 1) * b ^ (x :: xs).length := by
              rw [List.length_cons, Nat.pow_succ', Nat.mul_assoc]
      · intro y hy
        rcases List.mem_cons.mp hy with rfl | hy
        · rw [hd]; rfl
        · exact hall y hy

end Logic
end Asli
