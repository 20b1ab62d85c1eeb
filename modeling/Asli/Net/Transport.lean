import Asli.Core.Echo
import Asli.Logic.Slices
import Mathlib.Data.List.DropRight
import Mathlib.Tactic.IntervalCases

/-!
# Transport — which relay addresses are encrypted, `asli-net/src/client.rs`

A relay address is refused unless its transport is encrypted or its host is this machine.  The host
is cut out of the address by hand; `LocalHost` reads it by the grammar of the authority.

* `isEncryptedTransport_ws` — what is let through under `ws://`.
* `cleartext_local_iff` — where no cleartext goes to another host: unless the authority is one of
  the texts in `Misread`, which have no host by the grammar.
-/

namespace Asli
namespace Net

open Core Logic

/-! ## The address as it is checked -/

/-- `str::trim`. -/
def trim (text : List Char) : List Char :=
  ((text.dropWhile isWhite).reverse.dropWhile isWhite).reverse

/-- `text.split(separators).next()`. -/
def upTo (separators text : List Char) : List Char :=
  text.takeWhile fun c => !separators.contains c

/-- `text.rsplit(separator).next()`. -/
def afterLast (separator : Char) (text : List Char) : List Char :=
  text.rtakeWhile fun c => c != separator

/-- A host in brackets up to the closing one, any other up to the port. -/
def hostIn (host : List Char) : List Char :=
  match host with
  | '[' :: v6 => upTo [']'] v6
  | _ => upTo [':'] host

def isEncryptedTransport (url : String) : Bool :=
  let lower := (trim url.toList).map Char.toLower
  if "wss://".toList.isPrefixOf lower then true
  else if "ws://".toList.isPrefixOf lower then
    -- up to the first `/`, `?` or `#`, minus any port and any credentials
    let host := hostIn (afterLast '@' (upTo ['/', '?', '#'] (lower.drop 5)))
    host == "localhost".toList || host == "::1".toList || host == "127.0.0.1".toList
  else false

/-! ## The grammar of the authority -/

def isHex (c : Char) : Bool :=
  c.isDigit || decide (97 ≤ c.toNat ∧ c.toNat ≤ 102) || decide (65 ≤ c.toNat ∧ c.toNat ≤ 70)

/-- The characters that stand for themselves: `unreserved` and `sub-delims`. -/
def isPlain (c : Char) : Bool :=
  c.isAlphanum || "-._~!$&'()*+,;=".toList.contains c

/-- `userinfo = *( unreserved / pct-encoded / sub-delims / ":" )`. -/
def isUserinfo : List Char → Bool
  | [] => true
  | '%' :: high :: low :: rest => isHex high && isHex low && isUserinfo rest
  | c :: rest => (isPlain c || c == ':') && isUserinfo rest

/-- `[ ":" port ]`, with `port = *DIGIT`. -/
def PortPart (text : List Char) : Prop :=
  text = [] ∨ ∃ port, text = ':' :: port ∧ port.all Char.isDigit = true

/-- `authority = [ userinfo "@" ] host [ ":" port ]`. -/
def HasHost (authority host : List Char) : Prop :=
  ∃ front after, authority = front ++ host ++ after ∧
    (front = [] ∨ ∃ info, front = info ++ ['@'] ∧ isUserinfo info = true) ∧ PortPart after

def LOOPBACK : List (List Char) :=
  ["localhost".toList, "127.0.0.1".toList, "[::1]".toList]

/-- The host component is this machine's, in any case. -/
def LocalHost (authority : List Char) : Prop :=
  ∃ host, HasHost authority host ∧ host.map Char.toLower ∈ LOOPBACK

/-- The authority of a `ws://` address: it ends at the first `/`, `?` or `#`. -/
def wsAuthority (url : String) : Option (List Char) :=
  if ((trim url.toList).take 5).map Char.toLower = "ws://".toList then
    some (((trim url.toList).drop 5).takeWhile fun c => c != '/' && c != '?' && c != '#')
  else none

/-! ## Cuts -/

/-- Nothing, or what ends with an at sign. -/
def Credentials (front : List Char) : Prop :=
  front = [] ∨ ∃ info, front = info ++ ['@']

/-- Nothing, or what starts with the separator. -/
def From (separator : Char) (text : List Char) : Prop :=
  text = [] ∨ ∃ tail, text = separator :: tail

theorem upTo_append {separator : Char} {name after : List Char} (hname : separator ∉ name)
    (hafter : From separator after) : upTo [separator] (name ++ after) = name := by
  unfold upTo
  rw [List.takeWhile_append_of_pos]
  · rcases hafter with rfl | ⟨tail, rfl⟩
    · simp
    · simp
  · intro c hc
    have hne : c ≠ separator := fun heq => hname (heq ▸ hc)
    simp [hne]

/-- A text is what stands up to the separator and what follows. -/
theorem exists_upTo (separator : Char) (text : List Char) :
    ∃ after, text = upTo [separator] text ++ after ∧ From separator after := by
  refine ⟨text.dropWhile fun c => !List.contains [separator] c, ?_, ?_⟩
  · exact List.takeWhile_append_dropWhile.symm
  · cases hrest : text.dropWhile fun c => !List.contains [separator] c with
    | nil => exact .inl rfl
    | cons c tail =>
        have hhead := List.head?_dropWhile_not (fun c => !List.contains [separator] c) text
        rw [hrest] at hhead
        have hc : c = separator := by simpa using hhead
        exact .inr ⟨tail, by rw [hc]⟩

theorem afterLast_append {front back : List Char} (hfront : Credentials front)
    (hback : '@' ∉ back) : afterLast '@' (front ++ back) = back := by
  unfold afterLast
  induction back using List.reverseRecOn with
  | nil =>
      rw [List.append_nil]
      rcases hfront with rfl | ⟨info, rfl⟩
      · rfl
      · exact List.rtakeWhile_concat_neg _ _ _ (by simp)
  | append_singleton back c ih =>
      have hc : c ≠ '@' := fun heq => hback (by simp [heq])
      rw [← List.append_assoc, List.rtakeWhile_concat_pos _ _ _ (by simpa using hc), ih]
      intro hmem
      exact hback (List.mem_append_left _ hmem)

theorem exists_afterLast (text : List Char) :
    ∃ front, text = front ++ afterLast '@' text ∧ Credentials front ∧ '@' ∉ afterLast '@' text := by
  refine ⟨text.rdropWhile fun c => c != '@', ?_, ?_, ?_⟩
  · exact List.rdropWhile_append_rtakeWhile.symm
  · by_cases hempty : (text.rdropWhile fun c => c != '@') = []
    · exact .inl hempty
    · refine .inr ⟨(text.rdropWhile fun c => c != '@').dropLast, ?_⟩
      have hlast := List.rdropWhile_last_not (fun c => c != '@') text hempty
      have hat : (text.rdropWhile fun c => c != '@').getLast hempty = '@' := by simpa using hlast
      calc (text.rdropWhile fun c => c != '@')
          = (text.rdropWhile fun c => c != '@').dropLast ++
              [(text.rdropWhile fun c => c != '@').getLast hempty] :=
            (List.dropLast_append_getLast hempty).symm
        _ = (text.rdropWhile fun c => c != '@').dropLast ++ ['@'] := by rw [hat]
  · intro hmem
    have hne := List.mem_rtakeWhile_imp hmem
    simp at hne

/-! ## In any case -/

def UPPER : List Char :=
  "ABCDEFGHIJKLMNOPQRSTUVWXYZ".toList

theorem toLower_cases (c : Char) : c.toLower = c ∨ c ∈ UPPER := by
  by_cases hupper : 65 ≤ c.toNat ∧ c.toNat ≤ 90
  · refine .inr ?_
    rw [← Char.ofNat_toNat c]
    generalize c.toNat = code at hupper
    rcases hupper with ⟨hlow, hhigh⟩
    interval_cases code <;> decide
  · refine .inl ?_
    unfold Char.toLower
    exact dif_neg hupper

/-- Lower case leaves what is no letter where it was. -/
theorem toLower_eq_iff {c x : Char} (hx : x.isAlpha = false) : c.toLower = x ↔ c = x := by
  rcases toLower_cases c with hsame | hupper
  · rw [hsame]
  · have hletters : ∀ c ∈ UPPER, c.isAlpha = true ∧ c.toLower.isAlpha = true :=
      forall_mem_of_all (by decide)
    constructor
    · rintro rfl
      rw [(hletters c hupper).2] at hx
      cases hx
    · rintro rfl
      rw [(hletters c hupper).1] at hx
      cases hx

/-- What does not tell the cases apart. -/
theorem toLower_class (c : Char) :
    isHex c.toLower = isHex c ∧ isPlain c.toLower = isPlain c ∧
      c.toLower.isDigit = c.isDigit := by
  rcases toLower_cases c with hsame | hupper
  · rw [hsame]
    exact ⟨rfl, rfl, rfl⟩
  · have hletters : ∀ c ∈ UPPER, isHex c.toLower = isHex c ∧ isPlain c.toLower = isPlain c ∧
        c.toLower.isDigit = c.isDigit := forall_mem_of_all (by decide)
    exact hletters c hupper

theorem isUserinfo_lower (text : List Char) :
    isUserinfo (text.map Char.toLower) = isUserinfo text := by
  induction text using isUserinfo.induct with
  | case1 => rfl
  | case2 high low rest ih =>
      have hpercent : ('%' : Char).toLower = '%' := by decide
      rw [List.map_cons, List.map_cons, List.map_cons, hpercent, isUserinfo, isUserinfo, ih,
        (toLower_class high).1, (toLower_class low).1]
  | case3 c rest hnot ih =>
      have hcolon : (c.toLower == ':') = (c == ':') := by
        rw [Bool.eq_iff_iff, beq_iff_eq, beq_iff_eq]
        exact toLower_eq_iff rfl
      have hnot' : ∀ high low rest', c.toLower = '%' →
          rest.map Char.toLower = high :: low :: rest' → False := by
        intro high low rest' hc hrest
        rcases List.map_eq_cons_iff.mp hrest with ⟨first, tail, hrest, -, htail⟩
        rcases List.map_eq_cons_iff.mp htail with ⟨second, tail', rfl, -, -⟩
        exact hnot first second tail' ((toLower_eq_iff rfl).mp hc) hrest
      rw [List.map_cons, isUserinfo.eq_3 _ _ hnot', isUserinfo.eq_3 _ _ hnot, ih,
        (toLower_class c).2.1, hcolon]

theorem portPart_lower {text : List Char} : PortPart (text.map Char.toLower) ↔ PortPart text := by
  have hdigits : ∀ port : List Char,
      (port.map Char.toLower).all Char.isDigit = port.all Char.isDigit := by
    intro port
    induction port with
    | nil => rfl
    | cons c port ih => rw [List.map_cons, List.all_cons, List.all_cons, ih, (toLower_class c).2.2]
  constructor
  · rintro (hempty | ⟨port, hport, hall⟩)
    · exact .inl (List.map_eq_nil_iff.mp hempty)
    · rcases List.map_eq_cons_iff.mp hport with ⟨c, tail, rfl, hc, rfl⟩
      rw [hdigits] at hall
      exact .inr ⟨tail, by rw [(toLower_eq_iff rfl).mp hc], hall⟩
  · rintro (rfl | ⟨port, rfl, hall⟩)
    · exact .inl rfl
    · exact .inr ⟨port.map Char.toLower, rfl, by rw [hdigits, hall]⟩

/-- The authority has a loopback host when in lower case it has one as it is spelled. -/
theorem localHost_lower {authority : List Char} :
    LocalHost authority ↔ ∃ host ∈ LOOPBACK, HasHost (authority.map Char.toLower) host := by
  constructor
  · rintro ⟨host, ⟨front, after, rfl, hfront, hafter⟩, hlocal⟩
    refine ⟨host.map Char.toLower, hlocal, front.map Char.toLower, after.map Char.toLower, ?_, ?_,
      portPart_lower.mpr hafter⟩
    · rw [List.map_append, List.map_append]
    · rcases hfront with rfl | ⟨info, rfl, huser⟩
      · exact .inl rfl
      · refine .inr ⟨info.map Char.toLower, ?_, by rw [isUserinfo_lower, huser]⟩
        rw [List.map_append]
        rfl
  · rintro ⟨host, hlocal, front, after, hsplit, hfront, hafter⟩
    rcases List.map_eq_append_iff.mp hsplit with ⟨both, after', rfl, hboth, rfl⟩
    rcases List.map_eq_append_iff.mp hboth with ⟨front', host', rfl, rfl, rfl⟩
    refine ⟨host', ⟨front', after', rfl, ?_, portPart_lower.mp hafter⟩, hlocal⟩
    rcases hfront with hempty | ⟨info, hinfo, huser⟩
    · exact .inl (List.map_eq_nil_iff.mp hempty)
    · rcases List.map_eq_append_iff.mp hinfo with ⟨info', at', rfl, rfl, hat⟩
      rcases List.map_eq_cons_iff.mp hat with ⟨c, tail, rfl, hc, htail⟩
      rw [isUserinfo_lower] at huser
      refine .inr ⟨info', ?_, huser⟩
      rw [(toLower_eq_iff rfl).mp hc, List.map_eq_nil_iff.mp htail]

/-! ## What is let through -/

def NAMES : List (List Char) :=
  ["localhost".toList, "127.0.0.1".toList]

/-- The texts, in lower case, that are taken for this machine and are not an authority with its
name. -/
inductive Misread : List Char → Prop where
  /-- A name in brackets, closed or not, whatever comes behind. -/
  | bracketed {front name after : List Char} (hfront : Credentials front)
      (hname : name ∈ NAMES) (hafter : From ']' after) (hat : '@' ∉ after) :
      Misread (front ++ '[' :: (name ++ after))
  | unclosed {front : List Char} (hfront : Credentials front) : Misread (front ++ "[::1".toList)
  /-- Behind the bracket stands something other than a port. -/
  | behind {front after : List Char} (hfront : Credentials front) (hafter : ¬PortPart after)
      (hat : '@' ∉ after) : Misread (front ++ ("[::1]".toList ++ after))
  /-- What stands for the port is not a number. -/
  | port {front name after : List Char} (hfront : Credentials front)
      (hname : name ∈ NAMES) (hafter : after.all Char.isDigit = false) (hat : '@' ∉ after) :
      Misread (front ++ (name ++ ':' :: after))
  /-- The credentials have a character that cannot stand there. -/
  | credentials {info host after : List Char} (hinfo : isUserinfo info = false)
      (hhost : host ∈ LOOPBACK) (hafter : PortPart after) :
      Misread (info ++ ['@'] ++ (host ++ after))

/-- The test of the host. -/
def Passes (authority : List Char) : Prop :=
  hostIn (afterLast '@' authority) = "localhost".toList ∨
    hostIn (afterLast '@' authority) = "::1".toList ∨
      hostIn (afterLast '@' authority) = "127.0.0.1".toList

theorem passes_append {front back : List Char} (hfront : Credentials front) (hback : '@' ∉ back) :
    Passes (front ++ back) ↔ hostIn back = "localhost".toList ∨ hostIn back = "::1".toList ∨
      hostIn back = "127.0.0.1".toList := by
  unfold Passes
  rw [afterLast_append hfront hback]

theorem not_mem_portPart {after : List Char} (h : PortPart after) : '@' ∉ after := by
  rcases h with rfl | ⟨port, rfl, hall⟩
  · exact List.not_mem_nil
  · intro hmem
    rcases List.mem_cons.mp hmem with hcolon | hmem
    · exact absurd hcolon (by decide)
    · exact absurd (List.all_eq_true.mp hall '@' hmem) (by decide)

theorem not_mem_loopback {host : List Char} (h : host ∈ LOOPBACK) : '@' ∉ host := by
  have hall : ∀ host ∈ LOOPBACK, '@' ∉ host := by decide
  exact hall host h

theorem hostIn_bracket (v6 : List Char) : hostIn ('[' :: v6) = upTo [']'] v6 := rfl

theorem mem_names {name : List Char} (h : name ∈ NAMES) :
    name = "localhost".toList ∨ name = "127.0.0.1".toList := by
  simpa [NAMES] using h

theorem hostIn_name {name : List Char} (h : name ∈ NAMES) (after : List Char) :
    hostIn (name ++ after) = upTo [':'] (name ++ after) := by
  rcases mem_names h with rfl | rfl
  · rfl
  · rfl

/-- A name has none of the characters it is cut at. -/
theorem names_clean {name : List Char} (h : name ∈ NAMES) :
    '@' ∉ name ∧ ']' ∉ name ∧ ':' ∉ name := by
  have hall : ∀ name ∈ NAMES, '@' ∉ name ∧ ']' ∉ name ∧ ':' ∉ name := by decide
  exact hall name h

theorem upTo_six (after : List Char) :
    upTo [']'] ("::1".toList ++ ']' :: after) = "::1".toList :=
  upTo_append (by decide) (.inr ⟨after, rfl⟩)

/-- This machine's names with a port, or without, pass. -/
theorem passes_of_host {front host after : List Char} (hfront : Credentials front)
    (hhost : host ∈ LOOPBACK) (hafter : PortPart after) : Passes (front ++ (host ++ after)) := by
  have hat : '@' ∉ host ++ after := by
    intro hmem
    rcases List.mem_append.mp hmem with hmem | hmem
    · exact not_mem_loopback hhost hmem
    · exact not_mem_portPart hafter hmem
  have hport : From ':' after := by
    rcases hafter with rfl | ⟨port, rfl, -⟩
    · exact .inl rfl
    · exact .inr ⟨port, rfl⟩
  rw [passes_append hfront hat]
  simp only [LOOPBACK, List.mem_cons, List.not_mem_nil, or_false] at hhost
  rcases hhost with rfl | rfl | rfl
  · refine .inl ?_
    rw [hostIn_name (by decide), upTo_append (by decide) hport]
  · refine .inr (.inr ?_)
    rw [hostIn_name (by decide), upTo_append (by decide) hport]
  · refine .inr (.inl ?_)
    exact upTo_six after

/-- What is misread passes. -/
theorem Misread.passes {authority : List Char} (h : Misread authority) : Passes authority := by
  cases h with
  | @bracketed front name after hfront hname hafter hat =>
      have hback : '@' ∉ '[' :: (name ++ after) := by
        simp [(names_clean hname).1, hat]
      rw [passes_append hfront hback, hostIn_bracket, upTo_append (names_clean hname).2.1 hafter]
      rcases mem_names hname with rfl | rfl
      · exact .inl rfl
      · exact .inr (.inr rfl)
  | @unclosed front hfront =>
      rw [passes_append hfront (by decide)]
      exact .inr (.inl (by decide))
  | @behind front after hfront hafter hat =>
      have hback : '@' ∉ "[::1]".toList ++ after := by
        simp [hat]
      rw [passes_append hfront hback]
      exact .inr (.inl (upTo_six after))
  | @port front name after hfront hname hafter hat =>
      have hback : '@' ∉ name ++ ':' :: after := by
        simp [(names_clean hname).1, hat]
      rw [passes_append hfront hback, hostIn_name hname,
        upTo_append (names_clean hname).2.2 (.inr ⟨after, rfl⟩)]
      rcases mem_names hname with rfl | rfl
      · exact .inl rfl
      · exact .inr (.inr rfl)
  | @credentials info host after hinfo hhost hafter =>
      exact passes_of_host (.inr ⟨info, rfl⟩) hhost hafter

/-- The cut at the last at sign is the only one with none behind. -/
theorem cut_unique {front front' back back' : List Char} (h : front ++ back = front' ++ back')
    (hfront : Credentials front) (hfront' : Credentials front') (hback : '@' ∉ back)
    (hback' : '@' ∉ back') : front = front' ∧ back = back' := by
  have hsame : back = back' := by
    rw [← afterLast_append hfront hback, h, afterLast_append hfront' hback']
  rw [hsame] at h
  exact ⟨List.append_cancel_right h, hsame⟩

theorem take_loopback {host : List Char} (hhost : host ∈ LOOPBACK) (after : List Char) :
    (host ++ after).take 2 = host.take 2 := by
  have hlong : ∀ host ∈ LOOPBACK, 2 ≤ host.length := by decide
  exact List.take_append_of_le_length (hlong host hhost)

/-- Two loopback hosts in front of one text are the same, and so is what follows them. -/
theorem loopback_unique {host host' after after' : List Char} (hhost : host ∈ LOOPBACK)
    (hhost' : host' ∈ LOOPBACK) (h : host ++ after = host' ++ after') :
    host = host' ∧ after = after' := by
  -- the first two characters tell them apart
  have hstarts : ∀ host ∈ LOOPBACK, ∀ host' ∈ LOOPBACK,
      host.take 2 = host'.take 2 → host = host' := by decide
  have hsame : host = host' := by
    refine hstarts host hhost host' hhost' ?_
    rw [← take_loopback hhost after, h, take_loopback hhost' after']
  rw [hsame] at h
  exact ⟨hsame, List.append_cancel_left h⟩

theorem names_loopback {name : List Char} (h : name ∈ NAMES) : name ∈ LOOPBACK := by
  have hall : ∀ name ∈ NAMES, name ∈ LOOPBACK := by decide
  exact hall name h

/-- What is misread has no loopback host. -/
theorem Misread.not_hasHost {authority : List Char} (h : Misread authority) {host : List Char}
    (hhost : host ∈ LOOPBACK) : ¬HasHost authority host := by
  rintro ⟨front', after', hsplit, hfront', hafter'⟩
  have hcut' : Credentials front' := by
    rcases hfront' with hempty | ⟨info, hinfo, -⟩
    · exact .inl hempty
    · exact .inr ⟨info, hinfo⟩
  have hat' : '@' ∉ host ++ after' := by
    simp [not_mem_loopback hhost, not_mem_portPart hafter']
  rw [List.append_assoc] at hsplit
  cases h with
  | @bracketed front name after hfront hname hafter hat =>
      have hback : '@' ∉ '[' :: (name ++ after) := by
        simp [(names_clean hname).1, hat]
      have hsame := (cut_unique hsplit hfront hcut' hback hat').2
      -- behind the bracket stands a letter or a digit, not a colon
      have hstart := congrArg (List.take 2) hsame
      rw [take_loopback hhost] at hstart
      have hnames : ∀ name ∈ NAMES, 1 ≤ name.length ∧ ∀ host ∈ LOOPBACK,
          '[' :: name.take 1 ≠ host.take 2 := by decide
      rcases hnames name hname with ⟨hlong, hdiffer⟩
      rw [List.take_succ_cons, List.take_append_of_le_length hlong] at hstart
      exact hdiffer host hhost hstart
  | @unclosed front hfront =>
      have hsame := (cut_unique hsplit hfront hcut' (by decide) hat').2
      have hlength := congrArg List.length hsame
      rw [List.length_append] at hlength
      have hlong : ∀ host ∈ LOOPBACK, 5 ≤ host.length := by decide
      have hshort : "[::1".toList.length = 4 := by decide
      have hhostLong := hlong host hhost
      omega
  | @behind front after hfront hafter hat =>
      have hback : '@' ∉ "[::1]".toList ++ after := by
        simp [hat]
      have hsame := (cut_unique hsplit hfront hcut' hback hat').2
      have hafters := (loopback_unique (by decide) hhost hsame).2
      rw [hafters] at hafter
      exact hafter hafter'
  | @port front name after hfront hname hafter hat =>
      have hback : '@' ∉ name ++ ':' :: after := by
        simp [(names_clean hname).1, hat]
      have hsame := (cut_unique hsplit hfront hcut' hback hat').2
      have hafters := (loopback_unique (names_loopback hname) hhost hsame).2
      rw [← hafters] at hafter'
      rcases hafter' with hempty | ⟨port, hport, hall⟩
      · cases hempty
      · cases hport
        rw [hall] at hafter
        cases hafter
  | @credentials info host' after hinfo hhost' hafter =>
      have hback : '@' ∉ host' ++ after := by
        simp [not_mem_loopback hhost', not_mem_portPart hafter]
      have hsame := (cut_unique hsplit (.inr ⟨info, rfl⟩) hcut' hback hat').1
      rcases hfront' with hempty | ⟨info', hinfo', huser⟩
      · rw [hempty] at hsame
        exact absurd hsame (by simp)
      · rw [hinfo'] at hsame
        rw [List.append_cancel_right hsame, huser] at hinfo
        cases hinfo

/-- With a loopback host and a port, or none, only the credentials can be amiss. -/
theorem hasHost_or_misread {front host after : List Char} (hfront : Credentials front)
    (hhost : host ∈ LOOPBACK) (hafter : PortPart after) :
    HasHost (front ++ (host ++ after)) host ∨ Misread (front ++ (host ++ after)) := by
  rcases hfront with rfl | ⟨info, rfl⟩
  · exact .inl ⟨[], after, rfl, .inl rfl, hafter⟩
  · cases hinfo : isUserinfo info with
    | true =>
        refine .inl ⟨info ++ ['@'], after, ?_, .inr ⟨info, rfl, hinfo⟩, hafter⟩
        rw [List.append_assoc (info ++ ['@']) host after]
    | false => exact .inr (.credentials hinfo hhost hafter)

/-- What passes has a loopback host, or is misread. -/
theorem host_or_misread {authority : List Char} (h : Passes authority) :
    (∃ host ∈ LOOPBACK, HasHost authority host) ∨ Misread authority := by
  rcases exists_afterLast authority with ⟨front, hsplit, hfront, hat⟩
  unfold Passes at h
  generalize afterLast '@' authority = back at h hsplit hat
  subst hsplit
  by_cases hopen : ∃ v6, back = '[' :: v6
  · rcases hopen with ⟨v6, rfl⟩
    rw [hostIn_bracket] at h
    rcases exists_upTo ']' v6 with ⟨after, hv6, hafter⟩
    generalize upTo [']'] v6 = name at h hv6
    subst hv6
    have hatAfter : '@' ∉ after := fun hmem =>
      hat (List.mem_cons_of_mem _ (List.mem_append_right _ hmem))
    rcases h with rfl | rfl | rfl
    · exact .inr (.bracketed hfront (by decide) hafter hatAfter)
    · rcases hafter with rfl | ⟨tail, rfl⟩
      · exact .inr (.unclosed hfront)
      · have hatTail : '@' ∉ tail := fun hmem => hatAfter (List.mem_cons_of_mem _ hmem)
        by_cases hport : PortPart tail
        · have hhost : "[::1]".toList ∈ LOOPBACK := by decide
          rcases hasHost_or_misread hfront hhost hport with hhas | hmisread
          · exact .inl ⟨_, by decide, hhas⟩
          · exact .inr hmisread
        · exact .inr (.behind hfront hport hatTail)
    · exact .inr (.bracketed hfront (by decide) hafter hatAfter)
  · have hcut : hostIn back = upTo [':'] back := by
      unfold hostIn
      split
      · rename_i v6
        exact absurd ⟨v6, rfl⟩ hopen
      · rfl
    rw [hcut] at h
    rcases exists_upTo ':' back with ⟨after, hback, hafter⟩
    have hclean : ':' ∉ upTo [':'] back := by
      intro hmem
      have hne := List.mem_takeWhile_imp hmem
      simp at hne
    generalize upTo [':'] back = name at h hback hclean
    subst hback
    have hname : name ∈ NAMES := by
      rcases h with rfl | rfl | rfl
      · decide
      · exact absurd (by decide) hclean
      · decide
    rcases hafter with rfl | ⟨tail, rfl⟩
    · rcases hasHost_or_misread hfront (names_loopback hname) (.inl rfl) with hhas | hmisread
      · exact .inl ⟨name, names_loopback hname, hhas⟩
      · exact .inr hmisread
    · have hatTail : '@' ∉ tail := fun hmem =>
        hat (List.mem_append_right _ (List.mem_cons_of_mem _ hmem))
      cases hall : tail.all Char.isDigit with
      | true =>
          rcases hasHost_or_misread hfront (names_loopback hname) (.inr ⟨tail, rfl, hall⟩) with
            hhas | hmisread
          · exact .inl ⟨name, names_loopback hname, hhas⟩
          · exact .inr hmisread
      | false => exact .inr (.port hfront hname hall hatTail)

/-- Under `ws://` it is the authority that decides, in lower case. -/
theorem isEncryptedTransport_ws {url : String} {authority : List Char}
    (h : wsAuthority url = some authority) :
    isEncryptedTransport url = true ↔ Passes (authority.map Char.toLower) := by
  unfold wsAuthority at h
  unfold isEncryptedTransport
  generalize trim url.toList = text at h ⊢
  split at h
  · rename_i hscheme
    cases h
    have hscheme' : (text.map Char.toLower).take 5 = "ws://".toList := by
      rw [← List.map_take, hscheme]
    have hws : "ws://".toList.isPrefixOf (text.map Char.toLower) = true := by
      rw [List.isPrefixOf_iff_prefix, ← hscheme']
      exact List.take_prefix 5 _
    have hwss : "wss://".toList.isPrefixOf (text.map Char.toLower) = false := by
      rw [← List.take_append_drop 5 (text.map Char.toLower), hscheme']
      rfl
    have hcut : upTo ['/', '?', '#'] ((text.map Char.toLower).drop 5) =
        ((text.drop 5).takeWhile fun c => c != '/' && c != '?' && c != '#').map Char.toLower := by
      have hends : (fun c => !List.contains ['/', '?', '#'] c) ∘ Char.toLower =
          fun c => c != '/' && c != '?' && c != '#' := by
        funext c
        rw [Bool.eq_iff_iff]
        simp [toLower_eq_iff, and_assoc]
      rw [upTo, ← List.map_drop, List.takeWhile_map, hends]
    dsimp only
    rw [hwss, hws, hcut]
    simp only [Bool.false_eq_true, if_false, if_true, Bool.or_eq_true, beq_iff_eq]
    unfold Passes
    exact or_assoc
  · cases h

/-- No cleartext goes to another host, unless the authority is one of the texts that are misread. -/
theorem cleartext_local_iff (url : String) :
    (isEncryptedTransport url = true →
        ∀ authority, wsAuthority url = some authority → LocalHost authority) ↔
      ∀ authority, wsAuthority url = some authority → ¬Misread (authority.map Char.toLower) := by
  constructor
  · intro hlocal authority hauthority hmisread
    have hpasses := (isEncryptedTransport_ws hauthority).mpr hmisread.passes
    rcases localHost_lower.mp (hlocal hpasses authority hauthority) with ⟨host, hhost, hhas⟩
    exact hmisread.not_hasHost hhost hhas
  · intro hread hpasses authority hauthority
    rcases host_or_misread ((isEncryptedTransport_ws hauthority).mp hpasses) with hhost | hmisread
    · exact localHost_lower.mpr hhost
    · exact absurd hmisread (hread authority hauthority)

/-- Whatever stands behind the bracket, the address is taken for this machine. -/
theorem behind_the_bracket : isEncryptedTransport "ws://[::1].evil.example/v1" = true ∧
    wsAuthority "ws://[::1].evil.example/v1" = some "[::1].evil.example".toList ∧
      ¬LocalHost "[::1].evil.example".toList := by
  refine ⟨by decide, by decide, ?_⟩
  intro hlocal
  rcases localHost_lower.mp hlocal with ⟨host, hhost, hhas⟩
  have hmisread : Misread ([] ++ ("[::1]".toList ++ ".evil.example".toList)) := by
    refine .behind (.inl rfl) ?_ (by decide)
    rintro (hempty | ⟨port, hport, -⟩)
    · exact absurd hempty (by decide)
    · exact absurd (congrArg List.head? hport) (by simp)
  refine hmisread.not_hasHost hhost ?_
  have hlower : "[::1].evil.example".toList.map Char.toLower =
      [] ++ ("[::1]".toList ++ ".evil.example".toList) := by decide
  rw [← hlower]
  exact hhas

end Net
end Asli
