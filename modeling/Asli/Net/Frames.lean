import Asli.Logic.JsonRoundTrip
import Asli.Net.Envelope

/-!
# Frames — the text of a message reads back

`serdeJson` is the reader of the client: surrogates stand in pairs, numbers are finite, and nesting
stops at its limit.  Every message the client prints reads back as itself.
-/

namespace Asli
namespace Net

open Logic

/-- `serde_json` gives up at this depth. -/
def RECURSION_LIMIT : Nat := 128

/-- The parser of the client. -/
def serdeJson : JsonText where
  parse := fun text => (JsonGrammar.parse text).bind (RawJson.strict RECURSION_LIMIT)

/-- What was printed reads back. -/
theorem serdeJson_text {j : Json} (h : j.Plain RECURSION_LIMIT) :
    serdeJson.parse j.text = some j := by
  have hparse : ∀ text, serdeJson.parse text =
      (JsonGrammar.parse text).bind (RawJson.strict RECURSION_LIMIT) := fun _ => rfl
  rw [hparse, JsonGrammar.parse_text h]
  exact RawJson.strict_ofJson _ _ h

namespace Message

section Plain

variable {d : Nat}

@[simp] theorem u8_plain (x : UInt8) : (u8 x).Plain d :=
  ⟨rfl, rfl, rfl, by have := x.toNat_lt; simp only; omega⟩

@[simp] theorem u32_plain (x : UInt32) : (u32 x).Plain d :=
  ⟨rfl, rfl, rfl, by have := x.toNat_lt; simp only; omega⟩

@[simp] theorem u64_plain (x : UInt64) : (u64 x).Plain d :=
  ⟨rfl, rfl, rfl, x.toNat_lt⟩

@[simp] theorem ofBytes_plain (b : Bytes) : (Json.ofBytes b).Plain d :=
  trivial

theorem strItems_plain (xs : List String) : Json.PlainItems d (xs.map Json.str) := by
  induction xs with
  | nil => trivial
  | cons x xs ih => exact ⟨trivial, ih⟩

theorem strs_plain (hd : 1 < d) (xs : List String) : (strs xs).Plain d :=
  ⟨hd, strItems_plain xs⟩

theorem plainMembers_append (ms ns : Json.Members) :
    Json.PlainMembers d (ms ++ ns) ↔ Json.PlainMembers d ms ∧ Json.PlainMembers d ns := by
  induction ms with
  | nil => simp [Json.PlainMembers]
  | cons m ms ih =>
      obtain ⟨key, j⟩ := m
      simp [Json.PlainMembers, ih, and_assoc]

theorem optMember_plain {α : Type} (key : String) {write : α → Json} (x : Option α)
    (h : ∀ a, (write a).Plain d) : Json.PlainMembers d (optMember key write x) := by
  cases x with
  | none => trivial
  | some a => exact ⟨h a, trivial⟩

theorem members_plain (hd : 1 < d) (m : Message) : Json.PlainMembers d m.members := by
  cases m with
  | hello m =>
      rw [members, plainMembers_append]
      exact ⟨⟨u8_plain _, strs_plain hd _, strs_plain hd _, trivial⟩,
        optMember_plain _ _ fun _ => trivial⟩
  | challenge m =>
      exact ⟨u8_plain _, trivial, trivial, trivial, u64_plain _,
        ⟨hd, u64_plain _, u64_plain _, u64_plain _, u64_plain _, u64_plain _, trivial⟩, trivial⟩
  | auth m => exact ⟨u8_plain _, trivial, trivial, trivial, u64_plain _, trivial, trivial⟩
  | authOk m =>
      rw [members, plainMembers_append]
      exact ⟨⟨u8_plain _, trivial, u32_plain _, trivial, trivial⟩, optMember_plain _ _ u64_plain⟩
  | authFail m =>
      rw [members, plainMembers_append]
      exact ⟨⟨u8_plain _, trivial, trivial⟩, optMember_plain _ _ fun _ => trivial⟩
  | clip m =>
      rw [members, plainMembers_append, plainMembers_append]
      exact ⟨⟨⟨u8_plain _, trivial, u32_plain _, trivial, trivial, trivial, trivial⟩,
        optMember_plain _ _ fun _ => trivial⟩, optMember_plain _ _ u64_plain⟩
  | fetchLast m => exact ⟨u8_plain _, trivial⟩
  | presence m => exact ⟨u8_plain _, u32_plain _, trivial⟩
  | ping m =>
      rw [members, plainMembers_append]
      exact ⟨⟨u8_plain _, trivial⟩, optMember_plain _ _ u64_plain⟩
  | pong m =>
      rw [members, plainMembers_append]
      exact ⟨⟨u8_plain _, trivial⟩, optMember_plain _ _ u64_plain⟩
  | error m =>
      rw [members, plainMembers_append, plainMembers_append]
      exact ⟨⟨⟨u8_plain _, trivial, trivial⟩, optMember_plain _ _ fun _ => trivial⟩,
        optMember_plain _ _ u64_plain⟩
  | clipBegin m | clipChunk m | clipEnd m =>
      exact ⟨u8_plain _, trivial, u32_plain _, trivial, u32_plain _, u32_plain _, trivial, trivial,
        trivial⟩
  | announce m => exact ⟨u8_plain _, trivial, u32_plain _, trivial, trivial, trivial, trivial⟩
  | msg m =>
      rw [members, plainMembers_append]
      exact ⟨⟨u8_plain _, trivial, u32_plain _, trivial, trivial, trivial, trivial⟩,
        optMember_plain _ _ fun _ => trivial⟩

end Plain

theorem toJson_plain (m : Message) : m.toJson.Plain RECURSION_LIMIT :=
  ⟨by decide, trivial, members_plain (by decide) m⟩

/-- Every message the client prints, the client reads back. -/
theorem serde_toFrame (m : Message) : Message.parse serdeJson m.toFrame = .ok m :=
  parse_toFrame (serdeJson_text m.toJson_plain)

end Message
end Net
end Asli
