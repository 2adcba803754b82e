import Buzz.Library.Numerals
import Buzz.Library.Text

/-!
# Tenant keys

How `crates/buzz-core/src/tenant.rs` makes a key of the host that a client has connected to, and of
the URL that a relay is configured with: white space, letter case, the default ports and the dot of
the root are to make no difference.

What is used of the `url` crate is the parser, a parameter, and what it makes of an authority.

## Main definitions

* `normalizeHost`, `relayUrlAuthority`.
* `Authority`: a name, a dot or none, a port or none, and white space around them.
* `SameTenant`: the authorities that are to have one key.
* `ReadsAuthority`: what the `url` crate does with an authority.

## Main results

* `Authority.normalizeHost_text`, `Authority.normalizeHost_key`: the key of an authority.
* `Authority.key_eq_iff`: which authorities have one key.
* `relayUrlAuthority_eq_iff`: the key of a URL.
* `canonical_iff`: where the key is the one of the tenant, also from a URL.
-/

namespace Buzz.Core

open Buzz.Library

/-- The key of the host of a connection. -/
def normalizeHost (host : List Char) : List Char :=
  let host := asciiLower (trimmed host)
  let host := ((stripEnd ":443".toList host).or (stripEnd ":80".toList host)).getD host
  (stripEnd ['.'] host).getD host

/-- `url::Host`, its addresses as they are displayed. -/
inductive UrlHost
  | domain (name : List Char)
  | ipv4 (addr : List Char)
  | ipv6 (addr : List Char)
  deriving DecidableEq

/-- What is used of a parsed URL: the host, and a port that is not the default one. -/
structure Url where
  host : Option UrlHost
  port : Option ℕ
  deriving DecidableEq

def UrlHost.text : UrlHost → List Char
  | .domain name => name
  | .ipv4 addr => addr
  | .ipv6 addr => '[' :: addr ++ [']']

/-- The key of a relay URL. -/
def relayUrlAuthority (parse : List Char → Option Url) (relayUrl : List Char) : List Char :=
  match parse relayUrl with
  | none => []
  | some url =>
    match url.host with
    | none => []
    | some host =>
      match url.port with
      | some port => normalizeHost (host.text ++ ':' :: Nat.toDigits 10 port)
      | none => normalizeHost host.text

/-! ### Authorities -/

/-- A DNS name: letters, digits, hyphens, underscores and dots, and no dot at the end. -/
structure IsDnsName (name : List Char) : Prop where
  ne_nil : name ≠ []
  chars : ∀ c ∈ name, c.isAlphanum = true ∨ c = '-' ∨ c = '_' ∨ c = '.'
  last : name.getLast? ≠ some '.'

/-- An IPv6 address in brackets. -/
def IsIpv6Literal (name : List Char) : Prop :=
  ∃ addr, name = '[' :: addr ++ [']'] ∧ ∀ c ∈ addr, c.isAlphanum = true ∨ c = ':' ∨ c = '.'

/-- The authority of a host, with white space around it. -/
structure Authority where
  before : List Char
  name : List Char
  dotted : Bool
  port : Option ℕ
  after : List Char
  white_before : ∀ c ∈ before, isWhitespace c = true
  white_after : ∀ c ∈ after, isWhitespace c = true
  isName : IsDnsName name ∨ IsIpv6Literal name
  isPort : ∀ n ∈ port, 1 ≤ n ∧ n ≤ 65535

/-- The dot of the root. -/
def dotText (dotted : Bool) : List Char := if dotted then ['.'] else []

/-- A port after its colon. -/
def portText : Option ℕ → List Char
  | none => []
  | some n => ':' :: Nat.toDigits 10 n

namespace Authority

/-- The authority without white space. -/
def core (a : Authority) : List Char := a.name ++ dotText a.dotted ++ portText a.port

def text (a : Authority) : List Char := a.before ++ (a.core ++ a.after)

/-- The port, if it is not one of the default ones. -/
def keptPort (a : Authority) : Option ℕ :=
  if a.port = some 443 ∨ a.port = some 80 then none else a.port

/-- The names are equal up to letter case, and so are the ports, where 80, 443 and none are one. -/
def SameTenant (a b : Authority) : Prop :=
  asciiLower a.name = asciiLower b.name ∧ a.keptPort = b.keptPort

/-- A dot stays before a port that is kept. -/
def keptDot (a : Authority) : Bool := a.dotted && a.keptPort.isSome

/-- What `normalizeHost` makes of an authority. -/
def key (a : Authority) : List Char :=
  asciiLower a.name ++ dotText a.keptDot ++ portText a.keptPort

end Authority

/-! ### Names, dots and ports -/

theorem isWhitespace_of_isDnsName {name : List Char} (h : IsDnsName name) {c : Char}
    (hc : c ∈ name) : isWhitespace c = false := by
  rcases h.chars c hc with halnum | rfl | rfl | rfl
  · exact isWhitespace_of_isAlphanum halnum
  all_goals decide

theorem isWhitespace_of_isIpv6Literal {name : List Char} (h : IsIpv6Literal name) {c : Char}
    (hc : c ∈ name) : isWhitespace c = false := by
  obtain ⟨addr, rfl, haddr⟩ := h
  simp only [List.cons_append, List.mem_cons, List.mem_append, List.not_mem_nil, or_false] at hc
  rcases hc with rfl | hc | rfl
  · decide
  · rcases haddr c hc with halnum | rfl | rfl
    · exact isWhitespace_of_isAlphanum halnum
    all_goals decide
  · decide

theorem isDnsName_asciiLower {name : List Char} (h : IsDnsName name) :
    IsDnsName (asciiLower name) where
  ne_nil := by simpa [asciiLower] using h.ne_nil
  chars c hc := by
    obtain ⟨d, hd, rfl⟩ := List.mem_map.mp hc
    rcases h.chars d hd with halnum | rfl | rfl | rfl
    · exact .inl (isAlphanum_toLower halnum)
    all_goals decide
  last hlast := by
    rw [asciiLower, List.getLast?_map, Option.map_eq_some_iff] at hlast
    obtain ⟨c, hc, hdot⟩ := hlast
    rw [toLower_eq_iff (by decide)] at hdot
    exact h.last (hdot ▸ hc)

theorem isIpv6Literal_asciiLower {name : List Char} (h : IsIpv6Literal name) :
    IsIpv6Literal (asciiLower name) := by
  obtain ⟨addr, rfl, haddr⟩ := h
  have hbrackets : '['.toLower = '[' ∧ ']'.toLower = ']' := by decide
  refine ⟨asciiLower addr, by simp [asciiLower, hbrackets], fun c hc => ?_⟩
  obtain ⟨d, hd, rfl⟩ := List.mem_map.mp hc
  rcases haddr d hd with halnum | rfl | rfl
  · exact .inl (isAlphanum_toLower halnum)
  all_goals decide

theorem getLast?_ne_dot {name : List Char} (h : IsDnsName name ∨ IsIpv6Literal name) :
    name.getLast? ≠ some '.' := by
  rcases h with hname | ⟨addr, rfl, -⟩
  · exact hname.last
  · rw [List.getLast?_concat]
    decide

/-- A text with a colon in it does not end with a digit. -/
def Closed (text : List Char) : Prop :=
  ':' ∈ text → ∃ c ∈ text.getLast?, c.isDigit = false

theorem closed_append_dotText {name : List Char} (h : IsDnsName name ∨ IsIpv6Literal name)
    (dotted : Bool) : Closed (name ++ dotText dotted) := by
  intro hcolon
  cases dotted with
  | true => exact ⟨'.', by simp [dotText], by decide⟩
  | false =>
    rw [dotText, if_neg Bool.false_ne_true, List.append_nil] at hcolon ⊢
    rcases h with hname | ⟨addr, rfl, -⟩
    · rcases hname.chars ':' hcolon with h | h | h | h
      all_goals exact absurd h (by decide)
    · exact ⟨']', List.getLast?_concat, by decide⟩

theorem colon_notMem_toDigits (n : ℕ) : ':' ∉ Nat.toDigits 10 n := fun h =>
  absurd (Nat.isDigit_of_mem_toDigits (by omega) (by omega) h) (by decide)

theorem append_portText_some {x y : List Char} (hx : Closed x) {p : Option ℕ} {n : ℕ} :
    x ++ portText p = y ++ portText (some n) ↔ x = y ∧ p = some n := by
  constructor
  · intro h
    cases p with
    | none =>
      rw [portText, portText, List.append_nil] at h
      obtain ⟨c, hc, hdigit⟩ := hx (by rw [h]; simp)
      rw [h, List.getLast?_append_of_ne_nil _ (List.cons_ne_nil _ _),
        List.getLast?_cons_of_ne_nil Nat.toDigits_ne_nil] at hc
      rw [Nat.isDigit_of_mem_toDigits (by omega) (by omega) (List.mem_of_getLast? hc)] at hdigit
      cases hdigit
    | some m =>
      obtain ⟨rfl, hdigits⟩ :=
        append_cons_inj_last (colon_notMem_toDigits m) (colon_notMem_toDigits n) h
      exact ⟨rfl, congrArg some (toDigits_injective hdigits)⟩
  · rintro ⟨rfl, rfl⟩
    rfl

theorem append_portText_inj {x y : List Char} (hx : Closed x) (hy : Closed y) {p q : Option ℕ} :
    x ++ portText p = y ++ portText q ↔ x = y ∧ p = q := by
  cases q with
  | some n => exact append_portText_some hx
  | none =>
    cases p with
    | none => simp [portText]
    | some m =>
      rw [eq_comm, append_portText_some hy]
      exact ⟨fun h => ⟨h.1.symm, h.2.symm⟩, fun h => ⟨h.1.symm, h.2.symm⟩⟩

theorem append_dotText_inj {x y : List Char} (hx : x.getLast? ≠ some '.')
    (hy : y.getLast? ≠ some '.') {d e : Bool} :
    x ++ dotText d = y ++ dotText e ↔ x = y ∧ d = e := by
  constructor
  · intro h
    cases d <;> cases e <;> simp only [dotText, if_true, Bool.false_eq_true, if_false,
      List.append_nil] at h
    · exact ⟨h, rfl⟩
    · exact absurd (by rw [h]; simp) hx
    · exact absurd (by rw [← h]; simp) hy
    · exact ⟨List.append_cancel_right h, rfl⟩
  · rintro ⟨rfl, rfl⟩
    rfl

theorem asciiLower_append (x y : List Char) :
    asciiLower (x ++ y) = asciiLower x ++ asciiLower y := List.map_append

theorem asciiLower_dotText (dotted : Bool) : asciiLower (dotText dotted) = dotText dotted := by
  cases dotted <;> decide

theorem asciiLower_portText (port : Option ℕ) : asciiLower (portText port) = portText port := by
  cases port with
  | none => rfl
  | some n =>
    have hdigits : ∀ c ∈ Nat.toDigits 10 n, c.toLower = c := fun c hc =>
      toLower_of_isDigit (Nat.isDigit_of_mem_toDigits (by omega) (by omega) hc)
    rw [portText, asciiLower, List.map_cons, List.map_congr_left hdigits, List.map_id']
    rfl

theorem asciiLower_asciiLower (text : List Char) :
    asciiLower (asciiLower text) = asciiLower text := by
  rw [asciiLower, asciiLower, List.map_map]
  exact List.map_congr_left fun c _ => toLower_toLower c

/-! ### The key of an authority -/

namespace Authority

variable (a b : Authority)

theorem isName_asciiLower : IsDnsName (asciiLower a.name) ∨ IsIpv6Literal (asciiLower a.name) :=
  a.isName.imp isDnsName_asciiLower isIpv6Literal_asciiLower

theorem isWhitespace_of_mem_core {c : Char} (hc : c ∈ a.core) : isWhitespace c = false := by
  rw [core, List.mem_append, List.mem_append] at hc
  rcases hc with (hc | hc) | hc
  · exact a.isName.elim (isWhitespace_of_isDnsName · hc) (isWhitespace_of_isIpv6Literal · hc)
  · rw [dotText] at hc
    split_ifs at hc with hdot
    · rw [List.mem_singleton.mp hc]
      decide
    · cases hc
  · cases hport : a.port with
    | none =>
      rw [hport] at hc
      cases hc
    | some n =>
      rw [hport, portText, List.mem_cons] at hc
      rcases hc with rfl | hc
      · decide
      · refine isWhitespace_of_isAlphanum ?_
        rw [Char.isAlphanum, Nat.isDigit_of_mem_toDigits (by omega) (by omega) hc, Bool.or_true]

theorem core_ne_nil : a.core ≠ [] := by
  have hname : a.name ≠ [] := by
    rcases a.isName with hname | ⟨addr, haddr, -⟩
    · exact hname.ne_nil
    · rw [haddr]
      simp
  simp [core, hname]

theorem trimmed_text : trimmed a.text = a.core :=
  trimmed_append a.white_before a.white_after a.core_ne_nil
    (a.isWhitespace_of_mem_core (List.head_mem _)) (a.isWhitespace_of_mem_core (List.getLast_mem _))

theorem asciiLower_core :
    asciiLower a.core = asciiLower a.name ++ dotText a.dotted ++ portText a.port := by
  rw [core, asciiLower_append, asciiLower_append, asciiLower_dotText, asciiLower_portText]

/-- Only the port of the authority is stripped. -/
theorem stripEnd_portText (n : ℕ) :
    stripEnd (portText (some n)) (asciiLower a.core) =
      if a.port = some n then some (asciiLower a.name ++ dotText a.dotted) else none := by
  have hclosed := closed_append_dotText a.isName_asciiLower a.dotted
  rw [asciiLower_core]
  split_ifs with hport
  · rw [stripEnd_eq_some_iff, hport]
  · rw [stripEnd_eq_none_iff]
    exact fun rest heq => hport ((append_portText_some hclosed).mp heq).2

theorem stripEnd_dot :
    (stripEnd ['.'] (asciiLower a.name ++ dotText a.dotted)).getD
      (asciiLower a.name ++ dotText a.dotted) = asciiLower a.name := by
  cases a.dotted with
  | true =>
    rw [dotText, if_pos rfl, stripEnd_eq_some_iff.mpr rfl, Option.getD_some]
  | false =>
    have hlast := getLast?_ne_dot a.isName_asciiLower
    rw [dotText, if_neg Bool.false_ne_true, List.append_nil, stripEnd_eq_none_iff.mpr ?_,
      Option.getD_none]
    intro rest heq
    rw [heq, List.getLast?_concat] at hlast
    exact hlast rfl

/-- A text that ends with a port has no dot at its end. -/
theorem stripEnd_dot_portText (text : List Char) (n : ℕ) :
    stripEnd ['.'] (text ++ portText (some n)) = none := by
  rw [stripEnd_eq_none_iff]
  intro rest heq
  have hlast := congrArg List.getLast? heq
  rw [List.getLast?_concat, portText, List.getLast?_append_of_ne_nil _ (List.cons_ne_nil _ _),
    List.getLast?_cons_of_ne_nil Nat.toDigits_ne_nil] at hlast
  exact absurd (Nat.isDigit_of_mem_toDigits (by omega) (by omega) (List.mem_of_getLast? hlast))
    (by decide)

/-- The key of an authority. -/
theorem normalizeHost_text : normalizeHost a.text = a.key := by
  have h443 : ":443".toList = portText (some 443) := by decide
  have h80 : ":80".toList = portText (some 80) := by decide
  rw [normalizeHost, trimmed_text, h443, h80, stripEnd_portText, stripEnd_portText, key, keptDot,
    keptPort]
  by_cases hdefault : a.port = some 443 ∨ a.port = some 80
  · have hstrip : (if a.port = some 443 then some (asciiLower a.name ++ dotText a.dotted)
        else none).or (if a.port = some 80 then some (asciiLower a.name ++ dotText a.dotted)
        else none) = some (asciiLower a.name ++ dotText a.dotted) := by
      rcases hdefault with h | h <;> simp [h]
    rw [hstrip, if_pos hdefault, Option.getD_some, stripEnd_dot]
    simp [portText, dotText]
  · rw [if_neg hdefault]
    rw [not_or] at hdefault
    rw [if_neg hdefault.1, if_neg hdefault.2, Option.none_or, Option.getD_none, asciiLower_core]
    cases a.port with
    | none =>
      rw [portText, List.append_nil, stripEnd_dot]
      simp [dotText]
    | some n =>
      rw [stripEnd_dot_portText, Option.getD_none, Option.isSome_some, Bool.and_true]

/-- Which authorities have one key. -/
theorem key_eq_iff : a.key = b.key ↔
    a.SameTenant b ∧ (a.keptPort = none ∨ a.dotted = b.dotted) := by
  rw [key, key, append_portText_inj (closed_append_dotText a.isName_asciiLower _)
    (closed_append_dotText b.isName_asciiLower _),
    append_dotText_inj (getLast?_ne_dot a.isName_asciiLower) (getLast?_ne_dot b.isName_asciiLower),
    SameTenant, and_right_comm, and_congr_right_iff]
  rintro ⟨-, hport⟩
  rw [keptDot, keptDot, ← hport]
  cases a.keptPort <;> simp

theorem keptPort_of_default (h : a.port = some 443 ∨ a.port = some 80) : a.keptPort = none :=
  if_pos h

theorem keptPort_of_not_default (h : ¬ (a.port = some 443 ∨ a.port = some 80)) :
    a.keptPort = a.port := if_neg h

/-- The authority that a key is the text of. -/
def normal : Authority where
  before := []
  name := asciiLower a.name
  dotted := a.keptDot
  port := a.keptPort
  after := []
  white_before := nofun
  white_after := nofun
  isName := a.isName_asciiLower
  isPort n hn := by
    by_cases h : a.port = some 443 ∨ a.port = some 80
    · rw [keptPort_of_default a h] at hn
      cases hn
    · exact a.isPort n (keptPort_of_not_default a h ▸ hn)

theorem text_normal : a.normal.text = a.key := by
  rw [text, core, normal, List.nil_append, List.append_nil]
  rfl

theorem keptPort_normal : a.normal.keptPort = a.keptPort := by
  by_cases h : a.port = some 443 ∨ a.port = some 80
  · have hport : a.normal.port = none := keptPort_of_default a h
    rw [keptPort_of_default a h, keptPort, hport]
    rfl
  · have hport : a.normal.port = a.port := keptPort_of_not_default a h
    rw [keptPort_of_not_default _ (by rwa [hport]), hport, keptPort_of_not_default a h]

/-- A key is its own key. -/
theorem normalizeHost_key : normalizeHost a.key = a.key := by
  have hname : asciiLower a.normal.name = asciiLower a.name := asciiLower_asciiLower a.name
  have hdot : a.normal.keptDot = a.keptDot := by
    rw [keptDot, keptPort_normal, normal, keptDot, Bool.and_assoc, Bool.and_self]
  rw [← text_normal, normalizeHost_text, text_normal, key, hname, hdot, keptPort_normal, key]

end Authority

/-! ### URLs -/

/-- The schemes of a relay. -/
inductive Scheme
  | ws
  | wss

def Scheme.text : Scheme → List Char
  | .ws => "ws".toList
  | .wss => "wss".toList

def Scheme.defaultPort : Scheme → ℕ
  | .ws => 80
  | .wss => 443

/-- A URL, its scheme in any letter case, has an authority. -/
def HasAuthority (relayUrl : List Char) (scheme : Scheme) (a : Authority) : Prop :=
  ∃ lead rest, asciiLower lead = scheme.text ∧
    relayUrl = lead ++ "://".toList ++ a.core ++ rest ∧ ∀ c ∈ rest.head?, c ∈ ['/', '?', '#']

/-- What the `url` crate does with an authority: the default port of the scheme is dropped, a name
is put in lower case, unless it is an IPv4 address, and an IPv6 address is displayed. -/
structure ReadsAuthority (parse : List Char → Option Url) (ipv6Text : List Char → List Char)
    (a : Authority) : Prop where
  port : ∀ relayUrl scheme url, HasAuthority relayUrl scheme a → parse relayUrl = some url →
    url.port = if a.port = some scheme.defaultPort then none else a.port
  host : ∀ relayUrl scheme url, HasAuthority relayUrl scheme a → parse relayUrl = some url →
    IsDnsName a.name ∧ (url.host = some (.domain (asciiLower (a.name ++ dotText a.dotted))) ∨
        ∃ addr, url.host = some (.ipv4 addr)) ∨
      IsIpv6Literal a.name ∧ a.dotted = false ∧ url.host = some (.ipv6 (ipv6Text a.name))
  display : IsIpv6Literal a.name → IsIpv6Literal ('[' :: ipv6Text a.name ++ [']'])

/-- A WebSocket URL of an authority whose name is not an IPv4 address. -/
def IsUrlOf (parse : List Char → Option Url) (a : Authority) (relayUrl : List Char) : Prop :=
  ∃ scheme url, HasAuthority relayUrl scheme a ∧ parse relayUrl = some url ∧
    ∀ addr, url.host ≠ some (.ipv4 addr)

/-- An IPv6 address is written, up to letter case, as it is displayed. -/
def WrittenAsDisplayed (ipv6Text : List Char → List Char) (a : Authority) : Prop :=
  IsIpv6Literal a.name → asciiLower ('[' :: ipv6Text a.name ++ [']']) = asciiLower a.name

section Urls

variable {parse : List Char → Option Url} {ipv6Text : List Char → List Char} {a : Authority}

/-- The authority that is read from a URL. -/
def readAs (a : Authority) (name : List Char) (isName : IsDnsName name ∨ IsIpv6Literal name)
    (scheme : Scheme) : Authority where
  before := []
  name := name
  dotted := a.dotted
  port := if a.port = some scheme.defaultPort then none else a.port
  after := []
  white_before := nofun
  white_after := nofun
  isName := isName
  isPort n hn := by
    split_ifs at hn
    · cases hn
    · exact a.isPort n hn

theorem keptPort_readAs {name : List Char} (isName : IsDnsName name ∨ IsIpv6Literal name)
    (scheme : Scheme) : (readAs a name isName scheme).keptPort = a.keptPort := by
  have hdefault : scheme.defaultPort = 443 ∨ scheme.defaultPort = 80 := by
    cases scheme
    · exact .inr rfl
    · exact .inl rfl
  by_cases hport : a.port = some scheme.defaultPort
  · have hnone : (readAs a name isName scheme).port = none := if_pos hport
    have hkept : a.keptPort = none := by
      refine a.keptPort_of_default ?_
      rw [hport]
      simpa using hdefault
    rw [hkept, Authority.keptPort, hnone]
    rfl
  · have hsame : (readAs a name isName scheme).port = a.port := if_neg hport
    rw [Authority.keptPort, hsame, Authority.keptPort]

theorem not_isIpv6Literal {name : List Char} (h : IsDnsName name) : ¬ IsIpv6Literal name := by
  rintro ⟨addr, rfl, -⟩
  rcases h.chars '[' List.mem_cons_self with h | h | h | h
  all_goals exact absurd h (by decide)

theorem relayUrlAuthority_eq {relayUrl : List Char} {url : Url} {host : UrlHost}
    (hparse : parse relayUrl = some url) (hhost : url.host = some host) :
    relayUrlAuthority parse relayUrl = normalizeHost (host.text ++ portText url.port) := by
  rw [relayUrlAuthority, hparse]
  dsimp only
  rw [hhost]
  cases url.port with
  | none => exact congrArg normalizeHost (List.append_nil _).symm
  | some port => rfl

/-- The key of a URL is the one of its authority if an IPv6 address is written as displayed. -/
theorem relayUrlAuthority_eq_iff (hreads : ReadsAuthority parse ipv6Text a) {relayUrl : List Char}
    (h : IsUrlOf parse a relayUrl) :
    relayUrlAuthority parse relayUrl = a.key ↔ WrittenAsDisplayed ipv6Text a := by
  obtain ⟨scheme, url, hhas, hparse, hnot⟩ := h
  have hport := hreads.port relayUrl scheme url hhas hparse
  rcases hreads.host relayUrl scheme url hhas hparse with
    ⟨hname, hhost | ⟨addr, hhost⟩⟩ | ⟨hname, hdot, hhost⟩
  · have isName := a.isName_asciiLower
    have htext : (UrlHost.domain (asciiLower (a.name ++ dotText a.dotted))).text ++
        portText url.port = (readAs a _ isName scheme).text := by
      rw [hport, UrlHost.text, asciiLower_append, asciiLower_dotText, Authority.text,
        Authority.core]
      exact (List.append_nil _).symm
    have hkey : (readAs a _ isName scheme).key = a.key := by
      rw [Authority.key_eq_iff, Authority.SameTenant, keptPort_readAs]
      exact ⟨⟨asciiLower_asciiLower _, rfl⟩, .inr rfl⟩
    rw [relayUrlAuthority_eq hparse hhost, htext, Authority.normalizeHost_text, hkey]
    exact ⟨fun _ hipv6 => absurd hipv6 (not_isIpv6Literal hname), fun _ => rfl⟩
  · exact absurd hhost (hnot addr)
  · have isName : IsDnsName ('[' :: ipv6Text a.name ++ [']']) ∨ IsIpv6Literal _ :=
      .inr (hreads.display hname)
    have htext : (UrlHost.ipv6 (ipv6Text a.name)).text ++ portText url.port =
        (readAs a _ isName scheme).text := by
      rw [hport, UrlHost.text, Authority.text, Authority.core]
      change _ = [] ++ (_ ++ dotText a.dotted ++ _ ++ [])
      rw [hdot, List.append_nil, dotText, if_neg Bool.false_ne_true, List.append_nil]
      rfl
    rw [relayUrlAuthority_eq hparse hhost, htext, Authority.normalizeHost_text,
      Authority.key_eq_iff, Authority.SameTenant, keptPort_readAs]
    exact ⟨fun hsame _ => hsame.1.1, fun hwritten => ⟨⟨hwritten hname, rfl⟩, .inr rfl⟩⟩

end Urls

/-- **The key is the one of the tenant.** Of two authorities of one tenant with a port that is kept,
both have a dot or none does, and an IPv6 address in a URL is written as it is displayed. -/
theorem canonical_iff (parse : List Char → Option Url) (ipv6Text : List Char → List Char)
    (a b : Authority) (hreads : ReadsAuthority parse ipv6Text a) :
    (normalizeHost (normalizeHost a.text) = normalizeHost a.text ∧
        (normalizeHost a.text = normalizeHost b.text ↔ a.SameTenant b) ∧
        ∀ relayUrl, IsUrlOf parse a relayUrl →
          relayUrlAuthority parse relayUrl = normalizeHost a.text) ↔
      ¬ (a.SameTenant b ∧ a.keptPort ≠ none ∧ a.dotted ≠ b.dotted) ∧
        ∀ relayUrl, IsUrlOf parse a relayUrl → WrittenAsDisplayed ipv6Text a := by
  rw [a.normalizeHost_text, b.normalizeHost_text, a.normalizeHost_key, a.key_eq_iff b,
    and_iff_right rfl]
  refine and_congr ?_ (forall₂_congr fun relayUrl hurl => relayUrlAuthority_eq_iff hreads hurl)
  tauto

/-- The authority of a relay on port 8443, with a dot or without one. -/
def relay8443 (dotted : Bool) : Authority where
  before := []
  name := "Relay.Example".toList
  dotted := dotted
  port := some 8443
  after := [' ']
  white_before := nofun
  white_after := forall_of_all (by decide)
  isName := .inl ⟨by decide, forall_of_all (by decide), by decide⟩
  isPort n hn := by
    obtain rfl : 8443 = n := Option.some.inj hn
    omega

/-- Of one tenant with a dot and without one, there are two keys. -/
theorem dot_splits_tenant :
    (relay8443 true).SameTenant (relay8443 false) ∧
      normalizeHost (relay8443 true).text = "relay.example.:8443".toList ∧
      normalizeHost (relay8443 false).text = "relay.example:8443".toList := by
  refine ⟨⟨rfl, rfl⟩, ?_, ?_⟩ <;> rw [Authority.normalizeHost_text] <;> decide

/-- Both with a dot, and from a URL. -/
theorem canonical_relay8443 :
    let relayUrl := "wss://Relay.Example.:8443/".toList
    let parse : List Char → Option Url := fun text =>
      if text = relayUrl then some ⟨some (.domain "relay.example.".toList), some 8443⟩ else none
    (normalizeHost (normalizeHost (relay8443 true).text) = normalizeHost (relay8443 true).text ∧
        (normalizeHost (relay8443 true).text = normalizeHost (relay8443 true).text ↔
          (relay8443 true).SameTenant (relay8443 true)) ∧
        ∀ relayUrl, IsUrlOf parse (relay8443 true) relayUrl →
          relayUrlAuthority parse relayUrl = normalizeHost (relay8443 true).text) ↔
      ¬ ((relay8443 true).SameTenant (relay8443 true) ∧ (relay8443 true).keptPort ≠ none ∧
          (relay8443 true).dotted ≠ (relay8443 true).dotted) ∧
        ∀ relayUrl, IsUrlOf parse (relay8443 true) relayUrl →
          WrittenAsDisplayed id (relay8443 true) := by
  intro relayUrl parse
  have hparse {text : List Char} {url : Url} (h : parse text = some url) :
      url = ⟨some (.domain "relay.example.".toList), some 8443⟩ := by
    simp only [parse] at h
    split_ifs at h
    exact (Option.some.inj h).symm
  have hdns : IsDnsName (relay8443 true).name :=
    ⟨by decide, forall_of_all (by decide), by decide⟩
  refine canonical_iff parse id (relay8443 true) (relay8443 true)
    ⟨fun text scheme url _ h => ?_, fun text scheme url _ h => ?_, fun h => ?_⟩
  · rw [hparse h]
    cases scheme <;> decide
  · rw [hparse h]
    exact .inl ⟨hdns, .inl (by decide)⟩
  · exact absurd h (not_isIpv6Literal hdns)

end Buzz.Core
