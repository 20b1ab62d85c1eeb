import Asli.Logic.Double
import Asli.Logic.JsonGrammar
import Asli.Relay.Config

/-!
# Address — client addresses, `server/src/limits.ts`

Addresses and networks are texts; a network's prefix length is what `Number` makes of the text
behind the last slash.
-/

namespace Asli
namespace Relay

open Logic

/-! ## `Number(text)` -/

section Number

open JsonGrammar

/-- A run of digits of a radix, which has to be there and to be all there is. -/
def radixLiteral (radix : Nat) (cs : List Char) : Option ℚ :=
  if cs = [] then none
  else do
    let n ← cs.foldlM (fun n c => do
      let d ← hexDigit? c
      if d.val < radix then some (n * radix + d.val) else none) 0
    toDouble n

/-- A decimal literal with a sign, a fraction and an exponent. -/
def decimalLiteral (cs : List Char) : Option ℚ :=
  let (negative, cs) :=
    match cs with
    | '-' :: rest => (true, rest)
    | '+' :: rest => (false, rest)
    | rest => (false, rest)
  let (whole, rest) := digits cs
  let (fraction, rest) :=
    match rest with
    | '.' :: rest => digits rest
    | rest => ([], rest)
  if whole = [] ∧ fraction = [] then none
  else
    match exponentPart rest with
    | some (exponent, []) =>
        JsonNumber.double
          { negative := negative, whole := ofDigits whole, fraction := some fraction,
            exponent := exponent }
    | _ => none

/-- `Number(text)`; `none` is `NaN` or an infinity. -/
def number (text : List Char) : Option ℚ :=
  match trim text with
  | [] => some 0
  | '0' :: x :: cs =>
      if x = 'x' ∨ x = 'X' then radixLiteral 16 cs
      else if x = 'o' ∨ x = 'O' then radixLiteral 8 cs
      else if x = 'b' ∨ x = 'B' then radixLiteral 2 cs
      else decimalLiteral ('0' :: x :: cs)
  | cs => decimalLiteral cs

/-- `Number(text)` where `Number.isInteger` and not negative. -/
def wholeNumber (text : List Char) : Option Nat := do
  let q ← number text
  if q.den = 1 ∧ 0 ≤ q then some q.num.toNat else none

end Number

/-! ## The two address families -/

/-- One to three digits that spell at most 255. -/
def octet? (part : List Char) : Option Nat :=
  if 1 ≤ part.length ∧ part.length ≤ 3 ∧ (JsonGrammar.digits part).2 = [] then
    let octet := JsonGrammar.ofDigits (JsonGrammar.digits part).1
    if octet > 255 then none else some octet
  else none

def ipv4ToInt (address : List Char) : Option Nat :=
  let parts := address.splitOn '.'
  if parts.length ≠ 4 then none
  else parts.foldlM (fun value part => (octet? part).map fun octet => value * 256 + octet) 0

/-- `text.split('::')`. -/
def splitDouble : List Char → List (List Char)
  | [] => [[]]
  | ':' :: ':' :: rest => [] :: splitDouble rest
  | c :: rest => (splitDouble rest).modifyHead (c :: ·)

/-- One to four hex digits. -/
def group? (group : List Char) : Option Nat :=
  if 1 ≤ group.length ∧ group.length ≤ 4 then
    group.foldlM (fun n c => (JsonGrammar.hexDigit? c).map fun d => n * 16 + d.val) 0
  else none

/-- The groups between single colons; empty ones are dropped. -/
def pieces (half : List Char) : List (List Char) :=
  (half.splitOn ':').filter fun p => p ≠ []

def foldGroups (groups : List (List Char)) : Option Nat :=
  groups.foldlM (fun value group => (group? group).map fun g => value * 65536 + g) 0

def stripBrackets (address : List Char) : List Char :=
  if address.head? = some '[' ∧ address.getLast? = some ']' then (address.drop 1).dropLast
  else address

def expandIpv6 (address : List Char) : Option Nat :=
  let stripped := stripBrackets address
  if ¬stripped.contains ':' then none
  else
    match splitDouble stripped with
    | [only] =>
        let head := pieces only
        if head.length ≠ 8 then none else foldGroups head
    | [before, after] =>
        let head := pieces before
        let tail := pieces after
        if head.length + tail.length > 8 then none
        else foldGroups (head ++ List.replicate (8 - head.length - tail.length) ['0'] ++ tail)
    | _ => none

/-! ## Networks -/

/-- Both sides of the last slash. -/
def cutLast : List Char → Option (List Char × List Char)
  | [] => none
  | c :: rest =>
      match cutLast rest with
      | some sides => some (c :: sides.1, sides.2)
      | none => if c = '/' then some ([], rest) else none

/-- `::ffff:` is taken off an address. -/
def unmapped (address : List Char) : List Char :=
  if "::ffff:".toList.isPrefixOf address then address.drop 7 else address

/-- The operators work on 32 bits. -/
def mask (bits : Nat) : UInt32 :=
  if bits = 32 then 0xffffffff else ~~~((1 <<< UInt32.ofNat (32 - bits)) - 1)

def inCidr (address cidr : String) : Bool :=
  match cutLast cidr.toList with
  | none => address == cidr
  | some (network, bits) =>
      match wholeNumber bits with
      | none => false
      | some bits =>
          match ipv4ToInt (unmapped address.toList), ipv4ToInt network with
          | some addr4, some net4 =>
              if bits > 32 then false
              else if bits = 0 then true
              else UInt32.ofNat addr4 &&& mask bits == UInt32.ofNat net4 &&& mask bits
          | _, _ =>
              match expandIpv6 address.toList, expandIpv6 network with
              | some addr6, some net6 =>
                  if bits > 128 then false
                  else if bits = 0 then true
                  else addr6 >>> (128 - bits) == net6 >>> (128 - bits)
              | _, _ => false

/-! ## The client address -/

/-- The entries of a forwarded header. -/
def chainOf (forwardedFor : String) : List String :=
  (((forwardedFor.toList.splitOn ',').map trim).filter fun entry => !entry.isEmpty).map
    String.ofList

def trusted (trustedCidrs : List String) (address : String) : Bool :=
  trustedCidrs.any fun cidr => inCidr address cidr

/-- `for (let i = chain.length - 1; i >= 0; i -= 1)`, with `i + 1` rounds to go. -/
def walk (trustedCidrs chain : List String) : Nat → Option String
  | 0 => none
  | i + 1 =>
      match chain[i]? with
      | none => walk trustedCidrs chain i
      | some candidate =>
          if trusted trustedCidrs candidate then walk trustedCidrs chain i else some candidate

def resolveClientAddress (socketAddress : String) (forwardedFor : Option String)
    (trustedCidrs : List String) : String :=
  if trustedCidrs = [] then socketAddress
  else if !trusted trustedCidrs socketAddress then socketAddress
  else
    match forwardedFor with
    | none => socketAddress
    | some header =>
        if header = "" then socketAddress
        else
          let chain := chainOf header
          -- every hop in the chain may be a trusted proxy
          (walk trustedCidrs chain chain.length).getD socketAddress

/-! ### What a client writes in front

Each hop adds its entry behind the others, so what a client sends is in front.  The walk comes from
behind and stops at the first entry that is not trusted. -/

theorem chainOf_append (text header : String) :
    chainOf (text ++ "," ++ header) = chainOf text ++ chainOf header := by
  have hsplit : (text ++ "," ++ header).toList.splitOn ',' =
      text.toList.splitOn ',' ++ header.toList.splitOn ',' := by
    rw [String.toList_append, String.toList_append, List.append_assoc]
    exact List.splitOn_append_cons_self text.toList header.toList
  rw [chainOf, hsplit, List.map_append, List.filter_append, List.map_append, chainOf, chainOf]

variable {trustedCidrs : List String}

/-- The walk does not get past an entry that is not trusted. -/
theorem walk_append (front chain : List String) {i : Nat}
    (h : ∃ j candidate, j < i ∧ chain[j]? = some candidate ∧
      trusted trustedCidrs candidate = false) :
    walk trustedCidrs (front ++ chain) (front.length + i) = walk trustedCidrs chain i := by
  induction i with
  | zero =>
      rcases h with ⟨j, _, hj, -⟩
      omega
  | succ i ih =>
      rcases h with ⟨j, candidate, hj, hentry, huntrusted⟩
      have hlast : (front ++ chain)[front.length + i]? = chain[i]? := by
        rw [List.getElem?_append_right (Nat.le_add_right _ _), Nat.add_sub_cancel_left]
      rw [← Nat.add_assoc, walk, walk, hlast]
      by_cases hij : j = i
      · -- the entry looked at is the one that stops the walk
        subst hij
        rw [hentry]
        simp only [huntrusted, Bool.false_eq_true, if_false]
      · rw [ih ⟨j, candidate, by omega, hentry, huntrusted⟩]

/-- A header counts only behind a trusted socket, and then only from its last entry that is not
trusted. -/
theorem client_cannot_choose (trustedCidrs : List String) (socketAddress : String) :
    (trusted trustedCidrs socketAddress = false → ∀ header header',
      resolveClientAddress socketAddress header trustedCidrs =
        resolveClientAddress socketAddress header' trustedCidrs) ∧
    ∀ text header, (∃ entry ∈ chainOf header, trusted trustedCidrs entry = false) →
      resolveClientAddress socketAddress (some (text ++ "," ++ header)) trustedCidrs =
        resolveClientAddress socketAddress (some header) trustedCidrs := by
  constructor
  · intro huntrusted header header'
    have hsocket : ∀ header, resolveClientAddress socketAddress header trustedCidrs =
        socketAddress := by
      intro header
      unfold resolveClientAddress
      rw [huntrusted]
      split <;> rfl
    rw [hsocket, hsocket]
  · rintro text header ⟨entry, hmem, huntrusted⟩
    have hheader : header ≠ "" := by
      rintro rfl
      have hnone : chainOf "" = [] := by decide
      rw [hnone] at hmem
      exact List.not_mem_nil hmem
    have hlong : text ++ "," ++ header ≠ "" := by
      intro hempty
      have hlength := congrArg String.length hempty
      rw [String.length_append] at hlength
      exact hheader (String.length_eq_zero_iff.mp (Nat.eq_zero_of_add_eq_zero_left hlength))
    rcases List.mem_iff_getElem?.mp hmem with ⟨j, hentry⟩
    have hj : j < (chainOf header).length := (List.getElem?_eq_some_iff.mp hentry).1
    have hwalk := walk_append (chainOf text) (chainOf header)
      ⟨j, entry, hj, hentry, huntrusted⟩
    unfold resolveClientAddress
    dsimp only
    rw [if_neg hheader, if_neg hlong, chainOf_append, List.length_append, hwalk]

end Relay
end Asli
