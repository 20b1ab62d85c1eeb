import Mathlib.Data.List.Nodup
import Mathlib.Data.List.Infix

/-!
# Mail — a queue some of which is put aside

Entries arrive one after the other in one queue that has two readers.  One waits for entries of its
own: it takes the oldest, and puts aside what is not for it.  The other handles what it takes, and
takes what was put aside before anything else.  Entries are numbered as they arrive, so that it can
be said which were handled, in which order and how often.
-/

namespace Asli
namespace Logic

/-- A queue with its record: all that arrived, all that was handled, and all that was ever put
aside. -/
structure Mail (α : Type) where
  arrived : List α
  inbox : List (Nat × α)
  aside : List (Nat × α)
  handled : List (Nat × α)
  putAside : List (Nat × α)
  deriving DecidableEq

namespace Mail

variable {α : Type}

def empty : Mail α :=
  ⟨[], [], [], [], []⟩

def arrive (m : Mail α) (event : α) : Mail α :=
  { m with arrived := m.arrived ++ [event], inbox := m.inbox ++ [(m.arrived.length, event)] }

/-- The reader that waits takes the oldest entry of the queue. -/
def poll (m : Mail α) : Option ((Nat × α) × Mail α) :=
  match m.inbox with
  | [] => none
  | entry :: rest => some (entry, { m with inbox := rest })

/-- What it took is not for it. -/
def defer (m : Mail α) (entry : Nat × α) : Mail α :=
  { m with aside := m.aside ++ [entry], putAside := m.putAside ++ [entry] }

/-- The other reader takes an entry to handle it. -/
def next (m : Mail α) : Option ((Nat × α) × Mail α) :=
  match m.aside with
  | entry :: rest => some (entry, { m with aside := rest, handled := m.handled ++ [entry] })
  | [] =>
      match m.poll with
      | none => none
      | some (entry, m) => some (entry, { m with handled := m.handled ++ [entry] })

/-- What is still to be taken, in the order in which it is handled. -/
def waiting (m : Mail α) : List (Nat × α) :=
  m.aside ++ m.inbox

/-- Entries are handled in the order they arrived in, and one that was put aside stays where it is
until it is handled. -/
structure Ordered (m : Mail α) : Prop where
  ascending : (m.handled ++ m.waiting).Pairwise fun e e' => e.1 < e'.1
  arrived : ∀ e ∈ m.handled ++ m.waiting, m.arrived[e.1]? = some e.2
  kept : m.putAside.Sublist (m.handled ++ m.aside)

variable {m m' : Mail α} {entry : Nat × α} {event : α}

theorem ordered_empty : (empty : Mail α).Ordered :=
  ⟨.nil, (fun _ he => nomatch he), .slnil⟩

/-! ## What waits -/

theorem waiting_arrive : (m.arrive event).waiting = m.waiting ++ [(m.arrived.length, event)] :=
  (List.append_assoc _ _ _).symm

theorem poll_inbox (h : m.poll = some (entry, m')) :
    m.inbox = entry :: m'.inbox ∧ m' = { m with inbox := m'.inbox } := by
  unfold poll at h
  split at h
  · cases h
  · rename_i first rest hinbox
    cases h
    exact ⟨hinbox, rfl⟩

/-- What is deferred still waits, in the same place. -/
theorem waiting_defer (h : m.poll = some (entry, m')) : (m'.defer entry).waiting = m.waiting := by
  rcases poll_inbox h with ⟨hinbox, hrest⟩
  calc (m'.defer entry).waiting
      = m.aside ++ [entry] ++ m'.inbox := by rw [hrest]; rfl
    _ = m.waiting := by rw [waiting, hinbox, List.append_assoc, List.singleton_append]

theorem mem_waiting_poll (h : m.poll = some (entry, m')) {e : Nat × α} (he : e ∈ m.waiting) :
    e = entry ∨ e ∈ m'.waiting := by
  rcases poll_inbox h with ⟨hinbox, hrest⟩
  have haside : m'.aside = m.aside := by rw [hrest]
  rw [waiting, hinbox] at he
  rw [waiting, haside]
  rcases List.mem_append.1 he with hold | hnew
  · exact .inr (List.mem_append_left _ hold)
  · rcases List.mem_cons.1 hnew with hfirst | hlater
    · exact .inl hfirst
    · exact .inr (List.mem_append_right _ hlater)

/-- The entry that is handled next is the first that waits. -/
theorem next_waiting (h : m.next = some (entry, m')) :
    m.waiting = entry :: m'.waiting ∧ m'.handled = m.handled ++ [entry] ∧
      m'.arrived = m.arrived ∧ m'.putAside = m.putAside ∧
      m.handled ++ m.aside <+: m'.handled ++ m'.aside := by
  unfold next at h
  split at h
  · -- what was put aside comes first
    rename_i first rest haside
    cases h
    refine ⟨by rw [waiting, haside]; rfl, rfl, rfl, rfl, ?_⟩
    rw [haside, List.append_assoc, List.singleton_append]
  · rename_i haside
    split at h
    · cases h
    · -- nothing is aside, so what waits is the queue
      rename_i first polled hpoll
      cases h
      rcases poll_inbox hpoll with ⟨hinbox, hrest⟩
      have hasidePolled : polled.aside = [] := by rw [hrest]; exact haside
      refine ⟨by rw [waiting, haside, hinbox, waiting, hasidePolled]; rfl, by rw [hrest],
        by rw [hrest], by rw [hrest], ?_⟩
      rw [haside, List.append_nil, hrest, List.append_assoc]
      exact List.prefix_append _ _

/-- Nothing waits when there is nothing to take. -/
theorem next_none (h : m.next = none) : m.waiting = [] := by
  unfold next at h
  split at h
  · cases h
  · rename_i haside
    split at h
    · rename_i hpoll
      unfold poll at hpoll
      split at hpoll
      · rename_i hinbox
        rw [waiting, haside, hinbox]
        rfl
      · cases hpoll
    · cases h

/-! ## The order is kept -/

theorem Ordered.lt_arrived (h : m.Ordered) {e : Nat × α} (he : e ∈ m.handled ++ m.waiting) :
    e.1 < m.arrived.length :=
  (List.getElem?_eq_some_iff.1 (h.arrived e he)).1

theorem Ordered.arrive (h : m.Ordered) (event : α) : (m.arrive event).Ordered where
  ascending := by
    rw [waiting_arrive, ← List.append_assoc]
    refine List.pairwise_append.2 ⟨h.ascending, List.pairwise_singleton _ _, fun e he e' he' => ?_⟩
    rw [List.mem_singleton.1 he']
    exact h.lt_arrived he
  arrived := by
    intro e he
    rw [waiting_arrive, ← List.append_assoc] at he
    rcases List.mem_append.1 he with hold | hnew
    · exact (List.getElem?_append_left (h.lt_arrived hold)).trans (h.arrived e hold)
    · rw [List.mem_singleton.1 hnew]
      exact List.getElem?_concat_length
  kept := h.kept

/-- The reader that waits takes an entry for itself. -/
theorem Ordered.poll (h : m.Ordered) (hpoll : m.poll = some (entry, m')) : m'.Ordered := by
  rcases poll_inbox hpoll with ⟨hinbox, hrest⟩
  -- one entry less, and the others in the same order
  have hsub : (m'.handled ++ m'.waiting).Sublist (m.handled ++ m.waiting) := by
    rw [hrest, waiting, waiting, hinbox]
    exact ((List.sublist_cons_self _ _).append_left _).append_left _
  refine ⟨h.ascending.sublist hsub, fun e he => ?_, ?_⟩
  · rw [hrest]
    exact h.arrived e (hsub.subset he)
  · rw [hrest]
    exact h.kept

theorem Ordered.defer (h : m.Ordered) (hpoll : m.poll = some (entry, m')) :
    (m'.defer entry).Ordered := by
  rcases poll_inbox hpoll with ⟨hinbox, hrest⟩
  have hhandled : (m'.defer entry).handled = m.handled := by rw [hrest]; rfl
  have harrived : (m'.defer entry).arrived = m.arrived := by rw [hrest]; rfl
  refine ⟨?_, ?_, ?_⟩
  · rw [hhandled, waiting_defer hpoll]
    exact h.ascending
  · rw [hhandled, waiting_defer hpoll, harrived]
    exact h.arrived
  · have hput : (m'.defer entry).putAside = m.putAside ++ [entry] := by rw [hrest]; rfl
    have haside : (m'.defer entry).aside = m.aside ++ [entry] := by rw [hrest]; rfl
    rw [hput, hhandled, haside, ← List.append_assoc]
    exact h.kept.append (List.Sublist.refl _)

theorem Ordered.next (h : m.Ordered) (hnext : m.next = some (entry, m')) : m'.Ordered := by
  rcases next_waiting hnext with ⟨hwaiting, hhandled, harrived, hput, hkept⟩
  have hall : m'.handled ++ m'.waiting = m.handled ++ m.waiting := by
    rw [hhandled, hwaiting, List.append_assoc, List.singleton_append]
  refine ⟨?_, ?_, ?_⟩
  · rw [hall]
    exact h.ascending
  · rw [hall, harrived]
    exact h.arrived
  · rw [hput]
    exact h.kept.trans hkept.sublist

/-- Once nothing is left aside, everything that was put aside has been handled, and once. -/
theorem Ordered.handled_once [DecidableEq α] (h : m.Ordered) (haside : m.aside = [])
    (hentry : entry ∈ m.putAside) : m.handled.count entry = 1 := by
  have hsub : m.putAside.Sublist m.handled := by
    have hkept := h.kept
    rwa [haside, List.append_nil] at hkept
  -- entries are told apart by when they arrived
  have hnodup : m.handled.Nodup :=
    (List.pairwise_append.1 h.ascending).1.imp fun hlt heq =>
      absurd (congrArg Prod.fst heq) hlt.ne
  exact List.count_eq_one_of_mem hnodup (hsub.subset hentry)

end Mail
end Logic
end Asli
