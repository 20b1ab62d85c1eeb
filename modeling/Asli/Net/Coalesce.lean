import Asli.Net.Client

/-!
# Coalesce — what of a backlog is sent, `coalesce` in `asli-net/src/client.rs`

While a connection waits, what happens on the device is queued.  Of the copies and of the device
information queued only the newest matters; device messages and key changes all do, in their order;
and however often the stored clip was asked for, it is asked for once.
-/

namespace Asli
namespace Net

namespace LocalEvent

/-- The newest device information goes out before the copy. -/
def isInfo : LocalEvent → Bool
  | .deviceInfo _ => true
  | _ => false

/-- Device messages and key changes, each of which matters. -/
def isMessage : LocalEvent → Bool
  | .message .. => true
  | .rekey .. => true
  | _ => false

def isFetch : LocalEvent → Bool
  | .fetchRetained => true
  | _ => false

end LocalEvent

/-! ## The loop -/

/-- The loop of `coalesce`: one event after the other is taken until `try_recv` finds none.  What is
left is the queue. -/
def Batch.drain (b : Batch) : List LocalEvent → Batch × List LocalEvent
  | [] => (b, [])
  | event :: rest => (b.take event).drain rest

/-- `coalesce`, with the queue it leaves. -/
def coalesceFrom (first : LocalEvent) (queue : List LocalEvent) :
    List LocalEvent × List LocalEvent :=
  let taken := (Batch.empty.take first).drain queue
  (taken.1.events, taken.2)

theorem Batch.drain_eq (b : Batch) (queue : List LocalEvent) :
    b.drain queue = (queue.foldl Batch.take b, []) := by
  induction queue generalizing b with
  | nil => rfl
  | cons event rest ih => exact ih (b.take event)

/-- It is the batch a connection sends. -/
theorem coalesceFrom_eq (first : LocalEvent) (queue : List LocalEvent) :
    coalesceFrom first queue = (coalesce first queue, []) := by
  unfold coalesceFrom
  rw [Batch.drain_eq]
  rfl

/-! ## What a batch keeps -/

/-- What is worth sending of a queue, and nothing else. -/
structure Coalesced (queue batch : List LocalEvent) : Prop where
  messages : batch.filter LocalEvent.isMessage = queue.filter LocalEvent.isMessage
  copy : batch.filter LocalEvent.isCopy = (queue.filter LocalEvent.isCopy).getLast?.toList
  info : batch.filter LocalEvent.isInfo = (queue.filter LocalEvent.isInfo).getLast?.toList
  fetch : batch.filter LocalEvent.isFetch =
    if queue.any LocalEvent.isFetch then [.fetchRetained] else []
  infoFirst : batch.Pairwise fun earlier later => ¬ (earlier.isCopy ∧ later.isInfo)

/-- A batch under way holds of each kind what the events taken so far leave of it. -/
structure Batch.Sorts (b : Batch) (seen : List LocalEvent) : Prop where
  info : b.newestInfo = (seen.filter LocalEvent.isInfo).getLast?
  messages : b.messages = seen.filter LocalEvent.isMessage
  copy : b.newestCopy = (seen.filter LocalEvent.isCopy).getLast?
  fetch : b.fetch = seen.any LocalEvent.isFetch

section Sorts

variable {b : Batch} {seen : List LocalEvent} {event : LocalEvent}

theorem Batch.sorts_empty : Batch.empty.Sorts [] :=
  ⟨rfl, rfl, rfl, rfl⟩

/-- The kind of one event more decides where it goes. -/
theorem Batch.Sorts.take (h : b.Sorts seen) : (b.take event).Sorts (seen ++ [event]) := by
  have hfilter : ∀ p : LocalEvent → Bool,
      (seen ++ [event]).filter p = seen.filter p ++ if p event then [event] else [] := by
    intro p
    rw [List.filter_append, List.filter_singleton]
    cases p event <;> rfl
  have hany : (seen ++ [event]).any LocalEvent.isFetch = (b.fetch || event.isFetch) := by
    rw [List.any_append, h.fetch, List.any_cons, List.any_nil, Bool.or_false]
  constructor
  all_goals
    first | rw [hfilter] | rw [hany]
    cases event <;> simp [Batch.take, LocalEvent.isInfo, LocalEvent.isMessage, LocalEvent.isCopy,
      LocalEvent.isFetch, h.info, h.messages, h.copy]

theorem Batch.sorts_taken (queue : List LocalEvent) :
    (queue.foldl Batch.take Batch.empty).Sorts queue := by
  -- from the back, since the event that was taken last is the newest
  induction queue using List.reverseRecOn with
  | nil => exact Batch.sorts_empty
  | append_singleton queue event ih =>
      rw [List.foldl_append]
      exact ih.take

/-- The newest of a kind is of that kind. -/
theorem newest_kind {p : LocalEvent → Bool} {newest : Option LocalEvent}
    (h : newest = (seen.filter p).getLast?) : ∀ e ∈ newest.toList, p e = true := by
  intro e he
  rw [Option.mem_toList, h] at he
  exact (List.mem_filter.1 (List.mem_of_getLast? he)).2

/-- Events of one kind, among which another kind is looked for. -/
theorem filter_other {p q : LocalEvent → Bool} {events : List LocalEvent}
    (hkind : ∀ e ∈ events, q e = true) (hother : ∀ e, q e = true → p e = false) :
    events.filter p = [] := by
  rw [List.filter_eq_nil_iff]
  intro e he
  rw [hother e (hkind e he)]
  exact Bool.false_ne_true

/-- No event is of two kinds. -/
theorem kinds_apart (e : LocalEvent) :
    (e.isInfo = true → e.isMessage = false ∧ e.isCopy = false ∧ e.isFetch = false) ∧
      (e.isMessage = true → e.isInfo = false ∧ e.isCopy = false ∧ e.isFetch = false) ∧
      (e.isCopy = true → e.isInfo = false ∧ e.isMessage = false ∧ e.isFetch = false) ∧
      (e.isFetch = true → e.isInfo = false ∧ e.isMessage = false ∧ e.isCopy = false) := by
  cases e <;> simp [LocalEvent.isInfo, LocalEvent.isMessage, LocalEvent.isCopy, LocalEvent.isFetch]

/-- A batch has four parts, each of one kind. -/
theorem Batch.filter_events (p : LocalEvent → Bool) :
    b.events.filter p =
      b.newestInfo.toList.filter p ++ b.messages.filter p ++ b.newestCopy.toList.filter p ++
        (if b.fetch then [.fetchRetained] else []).filter p := by
  unfold Batch.events
  rw [List.filter_append, List.filter_append, List.filter_append]

theorem Batch.Sorts.coalesced (h : b.Sorts seen) : Coalesced seen b.events := by
  have hinfo := newest_kind h.info
  have hcopy := newest_kind h.copy
  have hmessages : ∀ e ∈ b.messages, e.isMessage = true := by
    intro e he
    rw [h.messages] at he
    exact (List.mem_filter.1 he).2
  have hfetch : ∀ e ∈ (if b.fetch then [LocalEvent.fetchRetained] else []),
      e.isFetch = true := by
    intro e he
    split at he
    · rw [List.mem_singleton.1 he]
      rfl
    · cases he
  refine ⟨?_, ?_, ?_, ?_, ?_⟩
  · -- device messages and key changes: nothing else is one
    rw [Batch.filter_events, List.filter_eq_self.2 hmessages,
      filter_other hinfo fun e he => ((kinds_apart e).1 he).1,
      filter_other hcopy fun e he => ((kinds_apart e).2.2.1 he).2.1,
      filter_other hfetch fun e he => ((kinds_apart e).2.2.2 he).2.1]
    rw [List.nil_append, List.append_nil, List.append_nil, h.messages]
  · -- copies
    rw [Batch.filter_events, List.filter_eq_self.2 hcopy,
      filter_other hinfo fun e he => ((kinds_apart e).1 he).2.1,
      filter_other hmessages fun e he => ((kinds_apart e).2.1 he).2.1,
      filter_other hfetch fun e he => ((kinds_apart e).2.2.2 he).2.2]
    rw [List.nil_append, List.nil_append, List.append_nil, h.copy]
  · -- device information
    rw [Batch.filter_events, List.filter_eq_self.2 hinfo,
      filter_other hmessages fun e he => ((kinds_apart e).2.1 he).1,
      filter_other hcopy fun e he => ((kinds_apart e).2.2.1 he).1,
      filter_other hfetch fun e he => ((kinds_apart e).2.2.2 he).1]
    rw [List.append_nil, List.append_nil, List.append_nil, h.info]
  · -- the request for the stored clip
    rw [Batch.filter_events, List.filter_eq_self.2 hfetch,
      filter_other hinfo fun e he => ((kinds_apart e).1 he).2.2,
      filter_other hmessages fun e he => ((kinds_apart e).2.1 he).2.2,
      filter_other hcopy fun e he => ((kinds_apart e).2.2.1 he).2.2]
    rw [List.nil_append, List.nil_append, List.nil_append, h.fetch]
  · -- nothing behind the first part is device information
    have hrest : ∀ e ∈ b.messages ++ b.newestCopy.toList ++
        if b.fetch then [.fetchRetained] else [], e.isInfo = false := by
      intro e he
      rcases List.mem_append.1 he with hfront | hlast
      · rcases List.mem_append.1 hfront with hmessage | hnewest
        · exact ((kinds_apart e).2.1 (hmessages e hmessage)).1
        · exact ((kinds_apart e).2.2.1 (hcopy e hnewest)).1
      · exact ((kinds_apart e).2.2.2 (hfetch e hlast)).1
    have hfirst : ∀ e ∈ b.newestInfo.toList, e.isCopy = false := fun e he =>
      ((kinds_apart e).1 (hinfo e he)).2.1
    unfold Batch.events
    rw [List.append_assoc, List.append_assoc, ← List.append_assoc b.messages]
    -- so a copy has no information behind it: it would stand in that part itself
    refine List.pairwise_append.2 ⟨?_, ?_, fun earlier he later _ => ?_⟩
    · refine List.Pairwise.imp_of_mem (fun he _ _ => ?_) (List.pairwise_of_forall fun _ _ => trivial)
      rw [hfirst _ he]
      exact fun hboth => Bool.false_ne_true hboth.1
    · refine List.Pairwise.imp_of_mem (fun _ he _ => ?_) (List.pairwise_of_forall fun _ _ => trivial)
      rw [hrest _ he]
      exact fun hboth => Bool.false_ne_true hboth.2
    · rw [hfirst earlier he]
      exact fun hboth => Bool.false_ne_true hboth.1

end Sorts

/-- Of every queue, the batch holds each device message and key change once and in order, the newest
copy and the newest device information and nothing older of either, the information before the copy,
and a request for the stored clip when there was one; and the queue is left empty. -/
theorem coalesce_keeps (first : LocalEvent) (queue : List LocalEvent) :
    Coalesced (first :: queue) (coalesceFrom first queue).1 ∧ (coalesceFrom first queue).2 = [] := by
  rw [coalesceFrom_eq]
  exact ⟨(Batch.sorts_taken (first :: queue)).coalesced, rfl⟩

/-- A name, two copies and a message between them. -/
example : coalesceFrom (.text "a") [.message .fileCancel [] none none, .deviceInfo ⟨"pc", "Linux"⟩,
    .fetchRetained, .text "b", .fetchRetained] =
    ([.deviceInfo ⟨"pc", "Linux"⟩, .message .fileCancel [] none none, .text "b", .fetchRetained],
      []) := rfl

end Net
end Asli
