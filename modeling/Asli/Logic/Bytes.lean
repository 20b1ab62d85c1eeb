import Mathlib.Data.List.DropRight
import Mathlib.Data.Nat.Basic
import Mathlib.Tactic.Ring
import Mathlib.Tactic.Linarith

/-!
# Bytes — byte strings, fixed-size arrays and big-endian integers

Byte strings are lists of `UInt8`; a fixed-size array `[u8; n]` is a byte string that carries
its length.  Fixed-width integers are written most significant byte first with `beBytes`, and
read back with `ofBe`.
-/

namespace Asli
namespace Logic

/-- A byte string. -/
abbrev Bytes := List UInt8

/-- A byte string of length exactly `n`. -/
abbrev ByteArr (n : Nat) := { b : Bytes // b.length = n }

namespace ByteArr

/-- The array of `n` copies of one byte. -/
def fill (n : Nat) (x : UInt8) : ByteArr n :=
  ⟨List.replicate n x, List.length_replicate⟩

/-- The array read from a byte string, when its length fits. -/
def ofBytes? (n : Nat) (b : Bytes) : Option (ByteArr n) :=
  if h : b.length = n then some ⟨b, h⟩ else none

@[simp] theorem ofBytes?_val {n : Nat} (b : ByteArr n) : ofBytes? n b.1 = some b := by
  simp [ofBytes?, b.2]

theorem ofBytes?_eq_some {n : Nat} {b : Bytes} {a : ByteArr n} :
    ofBytes? n b = some a ↔ b = a.1 := by
  constructor
  · intro h
    unfold ofBytes? at h
    split at h
    · cases h
      rfl
    · cases h
  · rintro rfl
    exact ofBytes?_val a

end ByteArr

/-! ## Slices -/

/-- `buf[start..start + len]`, short when the buffer is. -/
def slice (buf : Bytes) (start len : Nat) : Bytes :=
  (buf.drop start).take len

theorem slice_append_left {head rest : Bytes} {start len : Nat}
    (h : start = 0 ∧ head.length = len) : slice (head ++ rest) start len = head := by
  rcases h with ⟨rfl, rfl⟩
  simp [slice]

theorem slice_append_right {head rest : Bytes} {start len : Nat} (h : head.length ≤ start) :
    slice (head ++ rest) start len = slice rest (start - head.length) len := by
  have hnil : head.drop start = [] := List.drop_eq_nil_of_le h
  rw [slice, List.drop_append, hnil]
  rfl

/-! ## Big-endian integers -/

/-- The `n` low bytes of `x`, most significant first. -/
def beBytes : Nat → Nat → Bytes
  | 0, _ => []
  | n + 1, x => UInt8.ofNat (x / 256 ^ n) :: beBytes n x

/-- The number a byte string spells, most significant byte first. -/
def ofBe (b : Bytes) : Nat :=
  b.foldl (fun acc x => acc * 256 + x.toNat) 0

@[simp] theorem beBytes_length (n x : Nat) : (beBytes n x).length = n := by
  induction n with
  | zero => rfl
  | succ n ih => simp [beBytes, ih]

theorem foldl_beBytes (n x acc : Nat) :
    (beBytes n x).foldl (fun acc b => acc * 256 + b.toNat) acc = acc * 256 ^ n + x % 256 ^ n := by
  induction n generalizing acc with
  | zero => simp [beBytes, Nat.mod_one]
  | succ n ih =>
      have hdigit : (UInt8.ofNat (x / 256 ^ n)).toNat = x / 256 ^ n % 256 := by
        simp [UInt8.toNat_ofNat']
      have hsplit : x % 256 ^ (n + 1) = x / 256 ^ n % 256 * 256 ^ n + x % 256 ^ n := by
        rw [pow_succ, Nat.mod_mul]
        ring
      rw [beBytes, List.foldl_cons, ih, hdigit, hsplit]
      ring

theorem ofBe_beBytes (n x : Nat) : ofBe (beBytes n x) = x % 256 ^ n := by
  simpa [ofBe] using foldl_beBytes n x 0

theorem ofBe_beBytes_of_lt {n x : Nat} (hx : x < 256 ^ n) : ofBe (beBytes n x) = x := by
  rw [ofBe_beBytes, Nat.mod_eq_of_lt hx]

/-- Numbers that fit are determined by their bytes. -/
theorem beBytes_inj {n x y : Nat} (hx : x < 256 ^ n) (hy : y < 256 ^ n)
    (h : beBytes n x = beBytes n y) : x = y := by
  calc
    x = ofBe (beBytes n x) := (ofBe_beBytes_of_lt hx).symm
    _ = ofBe (beBytes n y) := by rw [h]
    _ = y := ofBe_beBytes_of_lt hy

/-- `u32::to_be_bytes`. -/
def be32 (x : UInt32) : Bytes := beBytes 4 x.toNat

/-- `u64::to_be_bytes`. -/
def be64 (x : UInt64) : Bytes := beBytes 8 x.toNat

@[simp] theorem be32_length (x : UInt32) : (be32 x).length = 4 := beBytes_length 4 _

@[simp] theorem be64_length (x : UInt64) : (be64 x).length = 8 := beBytes_length 8 _

@[simp] theorem ofBe_be32 (x : UInt32) : ofBe (be32 x) = x.toNat :=
  ofBe_beBytes_of_lt (by simpa using x.toNat_lt)

@[simp] theorem ofBe_be64 (x : UInt64) : ofBe (be64 x) = x.toNat :=
  ofBe_beBytes_of_lt (by simpa using x.toNat_lt)

theorem be32_injective {x y : UInt32} (h : be32 x = be32 y) : x = y := by
  have hnat : x.toNat = y.toNat := by
    rw [← ofBe_be32 x, ← ofBe_be32 y, h]
  exact UInt32.toNat_inj.mp hnat

theorem be64_injective {x y : UInt64} (h : be64 x = be64 y) : x = y := by
  have hnat : x.toNat = y.toNat := by
    rw [← ofBe_be64 x, ← ofBe_be64 y, h]
  exact UInt64.toNat_inj.mp hnat

/-! ## Saturating arithmetic -/

/-- `u64::saturating_add`. -/
def satAdd64 (a b : UInt64) : UInt64 :=
  UInt64.ofNat (min (a.toNat + b.toNat) (2 ^ 64 - 1))

/-- `u64::saturating_sub`. -/
def satSub64 (a b : UInt64) : UInt64 :=
  UInt64.ofNat (a.toNat - b.toNat)

/-- `u32::saturating_add`. -/
def satAdd32 (a b : UInt32) : UInt32 :=
  UInt32.ofNat (min (a.toNat + b.toNat) (2 ^ 32 - 1))

/-- `u32::saturating_sub`. -/
def satSub32 (a b : UInt32) : UInt32 :=
  UInt32.ofNat (a.toNat - b.toNat)

theorem satAdd64_toNat (a b : UInt64) :
    (satAdd64 a b).toNat = min (a.toNat + b.toNat) (2 ^ 64 - 1) := by
  have h : min (a.toNat + b.toNat) (2 ^ 64 - 1) < 2 ^ 64 := by omega
  simp only [satAdd64, UInt64.toNat_ofNat', Nat.mod_eq_of_lt h]

theorem satSub64_toNat (a b : UInt64) : (satSub64 a b).toNat = a.toNat - b.toNat := by
  have h : a.toNat - b.toNat < 2 ^ 64 := by
    have := a.toNat_lt
    omega
  simp only [satSub64, UInt64.toNat_ofNat', Nat.mod_eq_of_lt h]

theorem satAdd32_toNat (a b : UInt32) :
    (satAdd32 a b).toNat = min (a.toNat + b.toNat) (2 ^ 32 - 1) := by
  have h : min (a.toNat + b.toNat) (2 ^ 32 - 1) < 2 ^ 32 := by omega
  simp only [satAdd32, UInt32.toNat_ofNat', Nat.mod_eq_of_lt h]

theorem satSub32_toNat (a b : UInt32) : (satSub32 a b).toNat = a.toNat - b.toNat := by
  have h : a.toNat - b.toNat < 2 ^ 32 := by
    have := a.toNat_lt
    omega
  simp only [satSub32, UInt32.toNat_ofNat', Nat.mod_eq_of_lt h]

end Logic
end Asli
