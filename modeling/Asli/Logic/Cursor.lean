import Asli.Logic.Result
import Asli.Logic.Slices

/-!
# Cursor — reading a buffer from a position

A reader of the source keeps a buffer and a position in it; here that is a state, and a read
outside the buffer is `none`.  A reader on what is left of the buffer is simpler to reason about.
`Follows` says that the two agree and that the first stays inside; it is closed under sequencing.
-/

namespace Asli
namespace Logic

structure Cursor (ε α : Type) where
  read : Bytes → Nat → Option (Except ε (α × Nat))

namespace Cursor

variable {ε α β : Type}

instance : Monad (Cursor ε) where
  pure v := ⟨fun _ pos => some (.ok (v, pos))⟩
  bind c f := ⟨fun buf pos =>
    match c.read buf pos with
    | none => none
    | some (.error e) => some (.error e)
    | some (.ok (v, next)) => (f v).read buf next⟩

def fail (e : ε) : Cursor ε α :=
  ⟨fun _ _ => some (.error e)⟩

/-- `xs[i]`. -/
def index (xs : Bytes) (i : Nat) : Cursor ε UInt8 :=
  ⟨fun _ pos => xs[i]?.map fun b => .ok (b, pos)⟩

/-- `buf.get(at..at + len)`, and `at` moved behind it. -/
def bytes (e : ε) (len : Nat) : Cursor ε Bytes :=
  ⟨fun buf pos =>
    match part? buf pos (pos + len) with
    | some out => some (.ok (out, pos + len))
    | none => some (.error e)⟩

/-- Whether the position is at the end. -/
def done (e : ε) : Cursor ε Unit :=
  ⟨fun buf pos => if pos = buf.length then some (.ok ((), pos)) else some (.error e)⟩

theorem done_read (e : ε) (buf : Bytes) (pos : Nat) :
    (done e).read buf pos =
      if pos = buf.length then some (.ok ((), pos)) else some (.error e) := rfl

/-- A whole buffer, read from its start. -/
def run (c : Cursor ε α) (buf : Bytes) : Option (Except ε α) :=
  (c.read buf 0).map fun result => result.map Prod.fst

theorem bind_read (c : Cursor ε α) (f : α → Cursor ε β) (buf : Bytes) (pos : Nat) :
    (c >>= f).read buf pos =
      match c.read buf pos with
      | none => none
      | some (.error e) => some (.error e)
      | some (.ok (v, next)) => (f v).read buf next := rfl

/-! ## Agreement with a reader on what is left -/

/-- From a position inside, `c` reads as `r` does what is left, and ends up inside. -/
structure Follows (c : Cursor ε α) (r : Bytes → Except ε (α × Bytes)) : Prop where
  fails : ∀ front rest e, r rest = .error e →
    c.read (front ++ rest) front.length = some (.error e)
  reads : ∀ front rest v left, r rest = .ok (v, left) →
    ∃ used, rest = used ++ left ∧
      c.read (front ++ rest) front.length = some (.ok (v, (front ++ used).length))

/-- From a position inside, `c` gives what `r` makes of what is left. -/
def Ends (c : Cursor ε α) (r : Bytes → Except ε α) : Prop :=
  ∀ front rest, (c.read (front ++ rest) front.length).map (fun result => result.map Prod.fst) =
    some (r rest)

theorem Follows.bind {c : Cursor ε α} {r : Bytes → Except ε (α × Bytes)} {f : α → Cursor ε β}
    {g : α × Bytes → Except ε (β × Bytes)} (hc : Follows c r)
    (hf : ∀ v, Follows (f v) fun left => g (v, left)) :
    Follows (c >>= f) fun rest => r rest >>= g := by
  constructor
  · intro front rest e h
    rcases Result.bind_error h with hfirst | ⟨⟨v, left⟩, hfirst, hsecond⟩
    · rw [bind_read, hc.fails front rest e hfirst]
    · rcases hc.reads front rest v left hfirst with ⟨used, rfl, hrun⟩
      have hnext := (hf v).fails (front ++ used) left e hsecond
      rw [List.append_assoc] at hnext
      rw [bind_read, hrun]
      exact hnext
  · intro front rest w last h
    rcases Result.bind_ok h with ⟨⟨v, left⟩, hfirst, hsecond⟩
    rcases hc.reads front rest v left hfirst with ⟨used, rfl, hrun⟩
    rcases (hf v).reads (front ++ used) left w last hsecond with ⟨more, rfl, hnext⟩
    refine ⟨used ++ more, by rw [List.append_assoc], ?_⟩
    rw [List.append_assoc, List.append_assoc] at hnext
    rw [bind_read, hrun]
    exact hnext

theorem Ends.bind {c : Cursor ε α} {r : Bytes → Except ε (α × Bytes)} {f : α → Cursor ε β}
    {g : α × Bytes → Except ε β} (hc : Follows c r) (hf : ∀ v, Ends (f v) fun left => g (v, left)) :
    Ends (c >>= f) fun rest => r rest >>= g := by
  intro front rest
  dsimp only
  cases hfirst : r rest with
  | error e =>
      rw [bind_read, hc.fails front rest e hfirst]
      rfl
  | ok read =>
      rcases read with ⟨v, left⟩
      rcases hc.reads front rest v left hfirst with ⟨used, rfl, hrun⟩
      have hnext := hf v (front ++ used) left
      rw [List.append_assoc] at hnext
      rw [bind_read, hrun]
      exact hnext

theorem Follows.pure (v : α) :
    Follows (Pure.pure v : Cursor ε α) fun rest => Pure.pure (v, rest) := by
  constructor
  · intro front rest e h
    cases h
  · intro front rest w left h
    cases h
    exact ⟨[], rfl, by rw [List.append_nil]; rfl⟩

theorem Follows.fail (e : ε) :
    Follows (Cursor.fail e : Cursor ε α) fun _ => Except.error e := by
  constructor
  · intro front rest e' h
    cases h
    rfl
  · intro front rest v left h
    cases h

theorem Ends.pure (v : α) : Ends (Pure.pure v : Cursor ε α) fun _ => Pure.pure v :=
  fun _ _ => rfl

theorem Ends.fail (e : ε) : Ends (Cursor.fail e : Cursor ε α) fun _ => Except.error e :=
  fun _ _ => rfl

theorem Follows.ite {p : Prop} [Decidable p] {c d : Cursor ε α}
    {r s : Bytes → Except ε (α × Bytes)} (hc : Follows c r) (hd : Follows d s) :
    Follows (if p then c else d) fun rest => if p then r rest else s rest := by
  by_cases h : p
  · simpa only [if_pos h] using hc
  · simpa only [if_neg h] using hd

theorem Ends.ite {p : Prop} [Decidable p] {c d : Cursor ε α} {r s : Bytes → Except ε α}
    (hc : Ends c r) (hd : Ends d s) :
    Ends (if p then c else d) fun rest => if p then r rest else s rest := by
  by_cases h : p
  · simpa only [if_pos h] using hc
  · simpa only [if_neg h] using hd

/-- A check that does not look at the buffer. -/
theorem Ends.done {e : ε} {end_ : Bytes → Except ε Unit} {c : Cursor ε α} {r : Except ε α}
    (hend : ∀ rest, end_ rest = if rest = [] then .ok () else .error e)
    (hc : Ends c fun _ => r) :
    Ends (Cursor.done e >>= fun _ => c) fun rest => end_ rest >>= fun _ => r := by
  intro front rest
  dsimp only
  rw [hend, bind_read]
  cases rest with
  | nil =>
      have hrun := hc front []
      rw [List.append_nil] at hrun
      rw [List.append_nil, done_read, if_pos rfl, if_pos rfl]
      exact hrun
  | cons b rest =>
      have hne : ¬front.length = (front ++ b :: rest).length := by
        rw [List.length_append, List.length_cons]
        omega
      rw [done_read, if_neg hne, if_neg (List.cons_ne_nil b rest)]
      rfl

/-- `get` refuses what the buffer does not have. -/
theorem bytes_follows (e : ε) (len : Nat) :
    Follows (bytes e len) fun rest =>
      if len ≤ rest.length then .ok (rest.take len, rest.drop len) else .error e := by
  constructor
  · intro front rest e' h
    split at h
    · cases h
    rename_i hshort
    cases h
    have hnone : part? (front ++ rest) front.length (front.length + len) = none := by
      unfold part?
      rw [if_neg]
      rintro ⟨-, hle⟩
      rw [List.length_append] at hle
      omega
    rw [bytes]
    dsimp only
    rw [hnone]
  · intro front rest v left h
    split at h
    · rename_i hlen
      cases h
      refine ⟨rest.take len, (List.take_append_drop len rest).symm, ?_⟩
      have hsome : part? (front ++ rest) front.length (front.length + len) =
          some (rest.take len) := by
        rw [part?_eq (Nat.le_add_right _ _) (by rw [List.length_append]; omega), List.drop_left,
          Nat.add_sub_cancel_left]
      rw [bytes]
      dsimp only
      rw [hsome, List.length_append, List.length_take, Nat.min_eq_left hlen]
    · cases h

theorem Ends.run_eq {c : Cursor ε α} {r : Bytes → Except ε α} (h : Ends c r) (buf : Bytes) :
    c.run buf = some (r buf) :=
  h [] buf

end Cursor

end Logic
end Asli
