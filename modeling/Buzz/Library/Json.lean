import Mathlib.Data.Int.Notation
import Mathlib.Tactic.Common
import Buzz.Library.Hex

/-!
# JSON values, their compact text and a parser

A JSON value, its compact text (no white space, the escapes of RFC 8259 for control characters,
quotes and backslashes only) and a parser of the whole grammar. Objects keep their members in the
order of the text, repeated names included, so that a reader can decide what to do with them.

Texts are lists of characters. The parser takes fuel, one unit for each nested value or further
element; `parse` gives it the length of the text, which is enough for every compact text.

## Main definitions

* `Json`, `Json.render`, `Json.parse`.

## Main results

* `Json.parse_render`, `Json.Readable.parse_render`: a compact text parses back to its value.
-/

namespace Buzz.Library

/-- A JSON value. A number is an integer, or the text of a number with a fraction or an exponent
(or of a negative zero). -/
inductive Json where
  | null
  | bool (b : Bool)
  | int (n : ℤ)
  | float (text : List Char)
  | str (s : List Char)
  | arr (elems : List Json)
  | obj (members : List (List Char × Json))

namespace Json

/-! ### The compact text -/

/-- A character inside a string, escaped where the grammar asks for it. -/
def escapeChar (c : Char) : List Char :=
  if c = '"' then ['\\', '"']
  else if c = '\\' then ['\\', '\\']
  else if c = '\n' then ['\\', 'n']
  else if c = '\r' then ['\\', 'r']
  else if c = '\t' then ['\\', 't']
  else if c.toNat = 8 then ['\\', 'b']
  else if c.toNat = 12 then ['\\', 'f']
  else if c.toNat < 32 then ['\\', 'u', '0', '0', hexDigit (c.toNat / 16), hexDigit (c.toNat % 16)]
  else [c]

/-- A string with its quotes. -/
def quote (s : List Char) : List Char := '"' :: (s.flatMap escapeChar ++ ['"'])

/-- An integer in decimal. -/
def renderInt : ℤ → List Char
  | .ofNat n => Nat.toDigits 10 n
  | .negSucc n => '-' :: Nat.toDigits 10 (n + 1)

mutual

/-- The compact text of a value. -/
def render : Json → List Char
  | null => ['n', 'u', 'l', 'l']
  | bool true => ['t', 'r', 'u', 'e']
  | bool false => ['f', 'a', 'l', 's', 'e']
  | int n => renderInt n
  | float text => text
  | str s => quote s
  | arr [] => ['[', ']']
  | arr (v :: vs) => '[' :: (render v ++ renderElems vs)
  | obj [] => ['{', '}']
  | obj (m :: ms) => '{' :: (quote m.1 ++ ':' :: (render m.2 ++ renderMembers ms))

/-- The further elements of an array and its closing bracket. -/
def renderElems : List Json → List Char
  | [] => [']']
  | v :: vs => ',' :: (render v ++ renderElems vs)

/-- The further members of an object and its closing brace. -/
def renderMembers : List (List Char × Json) → List Char
  | [] => ['}']
  | m :: ms => ',' :: (quote m.1 ++ ':' :: (render m.2 ++ renderMembers ms))

end

/-! ### The parser -/

/-- Skip white space. -/
def skipWs (cs : List Char) : List Char :=
  cs.dropWhile fun c => c == ' ' || c == '\n' || c == '\t' || c == '\r'

/-- The code unit of four hexadecimal digits. -/
def hexUnit (a b c d : Char) : Option ℕ := do
  return ((← hexVal a) * 16 + (← hexVal b)) * 256 + ((← hexVal c) * 16 + (← hexVal d))

/-- The character of a `\u` escape, whose second half follows when it is a surrogate pair. -/
def unescapeUnicode (unit : ℕ) (rest : List Char) : Option (Char × List Char) :=
  if unit < 0xD800 ∨ 0xDFFF < unit then some (Char.ofNat unit, rest)
  else if 0xDC00 ≤ unit then none
  else
    match rest with
    | '\\' :: 'u' :: a :: b :: c :: d :: rest =>
      match hexUnit a b c d with
      | some low =>
        if 0xDC00 ≤ low ∧ low ≤ 0xDFFF then
          some (Char.ofNat (0x10000 + (unit - 0xD800) * 0x400 + (low - 0xDC00)), rest)
        else none
      | none => none
    | _ => none

/-- The next character of a string, its escape resolved. -/
def unescape : List Char → Option (Char × List Char)
  | [] => none
  | c :: rest =>
    if c = '\\' then
      match rest with
      | [] => none
      | e :: rest =>
        if e = '"' then some ('"', rest)
        else if e = '\\' then some ('\\', rest)
        else if e = '/' then some ('/', rest)
        else if e = 'b' then some (Char.ofNat 8, rest)
        else if e = 'f' then some (Char.ofNat 12, rest)
        else if e = 'n' then some ('\n', rest)
        else if e = 'r' then some ('\r', rest)
        else if e = 't' then some ('\t', rest)
        else if e = 'u' then
          match rest with
          | a :: b :: c :: d :: rest => (hexUnit a b c d).bind fun u => unescapeUnicode u rest
          | _ => none
        else none
    else if c.toNat < 32 then none
    else some (c, rest)

/-- The rest of a string after its opening quote. -/
def parseString : ℕ → List Char → Option (List Char × List Char)
  | 0, _ => none
  | _ + 1, '"' :: rest => some ([], rest)
  | n + 1, cs =>
    match unescape cs with
    | none => none
    | some (c, rest) => (parseString n rest).map fun p => (c :: p.1, p.2)

/-- The fraction of a number, empty when there is none. -/
def parseFraction : List Char → Option (List Char × List Char)
  | '.' :: rest =>
    let ds := rest.takeWhile Char.isDigit
    if ds = [] then none else some ('.' :: ds, rest.dropWhile Char.isDigit)
  | cs => some ([], cs)

/-- The exponent of a number, empty when there is none. -/
def parseExponent : List Char → Option (List Char × List Char)
  | [] => some ([], [])
  | e :: rest =>
    if e = 'e' ∨ e = 'E' then
      let sign := match rest with
        | '+' :: _ => ['+']
        | '-' :: _ => ['-']
        | _ => []
      let rest := rest.drop sign.length
      let ds := rest.takeWhile Char.isDigit
      if ds = [] then none else some (e :: (sign ++ ds), rest.dropWhile Char.isDigit)
    else some ([], e :: rest)

/-- A number after its sign. -/
def parseUnsigned (negative : Bool) (cs : List Char) : Option (Json × List Char) :=
  let ds := cs.takeWhile Char.isDigit
  if ds = [] ∨ (ds.head? = some '0' ∧ ds.length ≠ 1) then none
  else do
    let (fraction, rest) ← parseFraction (cs.dropWhile Char.isDigit)
    let (exponent, rest) ← parseExponent rest
    let n := Nat.ofDigitChars 10 ds 0
    if fraction = [] ∧ exponent = [] ∧ ¬ (negative = true ∧ n = 0) then
      some (int (if negative then -(n : ℤ) else n), rest)
    else
      some (float ((if negative then ['-'] else []) ++ ds ++ fraction ++ exponent), rest)

/-- A number. -/
def parseNumber : List Char → Option (Json × List Char)
  | '-' :: rest => parseUnsigned true rest
  | cs => parseUnsigned false cs

mutual

/-- A value, and the text after it. -/
def parseValue : ℕ → List Char → Option (Json × List Char)
  | 0, _ => none
  | n + 1, cs =>
    match skipWs cs with
    | 'n' :: 'u' :: 'l' :: 'l' :: rest => some (null, rest)
    | 't' :: 'r' :: 'u' :: 'e' :: rest => some (bool true, rest)
    | 'f' :: 'a' :: 'l' :: 's' :: 'e' :: rest => some (bool false, rest)
    | '"' :: rest => (parseString (rest.length + 1) rest).map fun p => (str p.1, p.2)
    | '[' :: rest =>
      match skipWs rest with
      | ']' :: rest => some (arr [], rest)
      | rest => (parseElems n rest).map fun p => (arr p.1, p.2)
    | '{' :: rest =>
      match skipWs rest with
      | '}' :: rest => some (obj [], rest)
      | rest => (parseMembers n rest).map fun p => (obj p.1, p.2)
    | cs => parseNumber cs

/-- The elements of an array up to its closing bracket. -/
def parseElems : ℕ → List Char → Option (List Json × List Char)
  | 0, _ => none
  | n + 1, cs =>
    match parseValue n cs with
    | none => none
    | some (v, rest) =>
      match skipWs rest with
      | ']' :: rest => some ([v], rest)
      | ',' :: rest => (parseElems n rest).map fun p => (v :: p.1, p.2)
      | _ => none

/-- The members of an object up to its closing brace. -/
def parseMembers : ℕ → List Char → Option (List (List Char × Json) × List Char)
  | 0, _ => none
  | n + 1, cs =>
    match skipWs cs with
    | '"' :: rest =>
      match parseString (rest.length + 1) rest with
      | none => none
      | some (k, rest) =>
        match skipWs rest with
        | ':' :: rest =>
          match parseValue n rest with
          | none => none
          | some (v, rest) =>
            match skipWs rest with
            | '}' :: rest => some ([(k, v)], rest)
            | ',' :: rest => (parseMembers n rest).map fun p => ((k, v) :: p.1, p.2)
            | _ => none
        | _ => none
    | _ => none

end

/-- Parse a whole text. -/
def parse (cs : List Char) : Option Json :=
  match parseValue (cs.length + 1) cs with
  | some (v, rest) => if skipWs rest = [] then some v else none
  | none => none

/-! ### The parser reads compact texts back -/

theorem hexUnit_hexDigit {n : ℕ} (h : n < 32) :
    hexUnit '0' '0' (hexDigit (n / 16)) (hexDigit (n % 16)) = some n := by
  revert n
  decide

theorem unescape_escapeChar (c : Char) (rest : List Char) :
    unescape (escapeChar c ++ rest) = some (c, rest) := by
  have hofNat (n : ℕ) (h : c.toNat = n) : Char.ofNat n = c := by rw [← h, Char.ofNat_toNat]
  rw [escapeChar]
  split_ifs with hquote hslash hn hr ht hb hf hctl
  · rw [hquote]; rfl
  · rw [hslash]; rfl
  · rw [hn]; rfl
  · rw [hr]; rfl
  · rw [ht]; rfl
  · rw [← hofNat 8 hb]; rfl
  · rw [← hofNat 12 hf]; rfl
  · have hunit : unescapeUnicode c.toNat rest = some (c, rest) := by
      unfold unescapeUnicode
      rw [if_pos (Or.inl (by omega)), Char.ofNat_toNat]
    simp only [List.cons_append, List.nil_append, unescape]
    simpa [hexUnit_hexDigit hctl] using hunit
  · simp [unescape, hslash, hctl]

theorem escapeChar_ne_quote (c : Char) (rest t : List Char) : escapeChar c ++ rest ≠ '"' :: t := by
  rw [escapeChar]
  split_ifs with hquote <;> simp_all

theorem parseString_quote :
    ∀ {s : List Char} {n : ℕ} (rest : List Char), s.length < n →
      parseString n (s.flatMap escapeChar ++ '"' :: rest) = some (s, rest)
  | [], n + 1, rest, _ => rfl
  | c :: s, n + 1, rest, h => by
    have ih := parseString_quote (s := s) (n := n) rest (by simpa using h)
    rw [List.flatMap_cons, List.append_assoc, parseString, unescape_escapeChar]
    · simp only [ih, Option.map_some]
    · exact fun t => escapeChar_ne_quote c _ t

/-- What follows a number does not continue it. -/
def NumberEnd (rest : List Char) : Prop :=
  ∀ c ∈ rest.head?, c.isDigit = false ∧ c ≠ '.' ∧ c ≠ 'e' ∧ c ≠ 'E'

theorem takeWhile_digits {ds rest : List Char} (hds : ∀ c ∈ ds, c.isDigit = true)
    (hrest : NumberEnd rest) :
    (ds ++ rest).takeWhile Char.isDigit = ds ∧ (ds ++ rest).dropWhile Char.isDigit = rest := by
  have hend : rest.takeWhile Char.isDigit = [] ∧ rest.dropWhile Char.isDigit = rest := by
    cases rest with
    | nil => exact ⟨rfl, rfl⟩
    | cons c rest =>
      have hc : c.isDigit = false := (hrest c rfl).1
      simp [hc]
  rw [List.takeWhile_append_of_pos hds, List.dropWhile_append_of_pos hds, hend.1, hend.2,
    List.append_nil]
  exact ⟨rfl, rfl⟩

/-- What follows a number is not taken for its digits. -/
theorem takeWhile_append {rest : List Char} (h : NumberEnd rest) (cs : List Char) :
    (cs ++ rest).takeWhile Char.isDigit = cs.takeWhile Char.isDigit ∧
      (cs ++ rest).dropWhile Char.isDigit = cs.dropWhile Char.isDigit ++ rest := by
  induction cs with
  | nil => exact takeWhile_digits (fun c hc => absurd hc List.not_mem_nil) h
  | cons c cs ih =>
    by_cases hc : c.isDigit = true
    · simp [hc, ih]
    · simp [hc]

theorem parseFraction_end {rest : List Char} (h : NumberEnd rest) :
    parseFraction rest = some ([], rest) := by
  cases rest with
  | nil => rfl
  | cons c rest =>
    have hc : c ≠ '.' := (h c rfl).2.1
    rw [parseFraction]
    rintro t ⟨rfl, -⟩
    exact hc rfl

theorem parseExponent_end {rest : List Char} (h : NumberEnd rest) :
    parseExponent rest = some ([], rest) := by
  cases rest with
  | nil => rfl
  | cons c rest =>
    obtain ⟨-, -, he, hE⟩ := h c rfl
    exact if_neg (not_or.mpr ⟨he, hE⟩)

theorem parseFraction_append {cs fraction rest' rest : List Char}
    (h : parseFraction cs = some (fraction, rest')) (hrest : NumberEnd rest) :
    parseFraction (cs ++ rest) = some (fraction, rest' ++ rest) := by
  cases cs with
  | nil =>
    cases h
    exact parseFraction_end hrest
  | cons c cs =>
    obtain ⟨htake, hdrop⟩ := takeWhile_append hrest cs
    by_cases hc : c = '.'
    · subst hc
      rw [parseFraction] at h
      rw [List.cons_append, parseFraction]
      simp only [htake, hdrop] at h ⊢
      split_ifs at h ⊢
      cases h
      rfl
    · have hother : ∀ l, parseFraction (c :: l) = some ([], c :: l) := by
        intro l
        rw [parseFraction]
        rintro t ⟨rfl, -⟩
        exact hc rfl
      rw [hother] at h
      cases h
      exact hother _

/-- The sign of an exponent. -/
def exponentSign : List Char → List Char
  | '+' :: _ => ['+']
  | '-' :: _ => ['-']
  | _ => []

theorem parseExponent_cons {e : Char} (he : e = 'e' ∨ e = 'E') (cs : List Char) :
    parseExponent (e :: cs) =
      if (cs.drop (exponentSign cs).length).takeWhile Char.isDigit = [] then none
      else some
        (e :: (exponentSign cs ++ (cs.drop (exponentSign cs).length).takeWhile Char.isDigit),
        (cs.drop (exponentSign cs).length).dropWhile Char.isDigit) :=
  if_pos he

theorem exponentSign_append (c : Char) (cs rest : List Char) :
    exponentSign (c :: cs ++ rest) = exponentSign (c :: cs) := by
  rw [List.cons_append]
  by_cases hplus : c = '+'
  · subst hplus
    rfl
  · by_cases hminus : c = '-'
    · subst hminus
      rfl
    · simp [exponentSign, hplus, hminus]

theorem length_exponentSign_le (c : Char) (cs : List Char) :
    (exponentSign (c :: cs)).length ≤ (c :: cs).length := by
  unfold exponentSign
  split <;> simp

theorem parseExponent_append {cs exponent rest' rest : List Char}
    (h : parseExponent cs = some (exponent, rest')) (hrest : NumberEnd rest) :
    parseExponent (cs ++ rest) = some (exponent, rest' ++ rest) := by
  cases cs with
  | nil =>
    cases h
    exact parseExponent_end hrest
  | cons e cs =>
    rw [List.cons_append]
    by_cases he : e = 'e' ∨ e = 'E'
    · rw [parseExponent_cons he] at h ⊢
      cases cs with
      | nil => simp [exponentSign] at h
      | cons c cs =>
        -- The sign is that of the first character, which is there in both texts.
        have hlength := length_exponentSign_le c cs
        obtain ⟨htake, hdrop⟩ :=
          takeWhile_append hrest ((c :: cs).drop (exponentSign (c :: cs)).length)
        rw [exponentSign_append, List.drop_append_of_le_length hlength, htake, hdrop]
        split_ifs at h ⊢
        cases h
        rfl
    · have hother : ∀ l, parseExponent (e :: l) = some ([], e :: l) := fun l => if_neg he
      rw [hother] at h ⊢
      cases h
      rfl

theorem parseUnsigned_append {negative : Bool} {cs : List Char} {v : Json}
    (h : parseUnsigned negative cs = some (v, [])) {rest : List Char} (hrest : NumberEnd rest) :
    parseUnsigned negative (cs ++ rest) = some (v, rest) := by
  obtain ⟨htake, hdrop⟩ := takeWhile_append hrest cs
  simp only [parseUnsigned, htake, hdrop] at h ⊢
  by_cases hdigits : cs.takeWhile Char.isDigit = [] ∨
      ((cs.takeWhile Char.isDigit).head? = some '0' ∧ (cs.takeWhile Char.isDigit).length ≠ 1)
  · rw [if_pos hdigits] at h
    cases h
  · rw [if_neg hdigits] at h ⊢
    obtain ⟨⟨fraction, rest₁⟩, hfraction, h⟩ := Option.bind_eq_some_iff.mp h
    obtain ⟨⟨exponent, rest₂⟩, hexponent, h⟩ := Option.bind_eq_some_iff.mp h
    refine Option.bind_eq_some_iff.mpr ⟨_, parseFraction_append hfraction hrest, ?_⟩
    refine Option.bind_eq_some_iff.mpr ⟨_, parseExponent_append hexponent hrest, ?_⟩
    simp only at h ⊢
    by_cases hint : fraction = [] ∧ exponent = [] ∧
        ¬ (negative = true ∧ Nat.ofDigitChars 10 (cs.takeWhile Char.isDigit) 0 = 0)
    · rw [if_pos hint] at h ⊢
      cases h
      rfl
    · rw [if_neg hint] at h ⊢
      cases h
      rfl

/-- A number is read the same before anything that does not continue it. -/
theorem parseNumber_append {text : List Char} {v : Json} (h : parseNumber text = some (v, []))
    {rest : List Char} (hrest : NumberEnd rest) :
    parseNumber (text ++ rest) = some (v, rest) := by
  cases text with
  | nil => cases h
  | cons c cs =>
    by_cases hsign : c = '-'
    · subst hsign
      exact parseUnsigned_append h hrest
    · have hother : ∀ l, parseNumber (c :: l) = parseUnsigned false (c :: l) := by
        intro l
        rw [parseNumber]
        rintro t ⟨rfl, -⟩
        exact hsign rfl
      rw [hother] at h
      rw [List.cons_append, hother, ← List.cons_append]
      exact parseUnsigned_append h hrest

theorem eq_zero_of_head_toDigits : ∀ {n : ℕ}, (Nat.toDigits 10 n).head? = some '0' → n = 0 := by
  intro n
  induction n using Nat.strongRecOn with
  | ind n ih =>
    intro h
    rw [Nat.toDigits_eq_if (by omega)] at h
    split_ifs at h with hn
    · have hsmall : ∀ m < 10, [m.digitChar].head? = some '0' → m = 0 := by decide
      exact hsmall n hn h
    · obtain ⟨c, cs, hcs⟩ :=
        List.exists_cons_of_ne_nil (Nat.toDigits_ne_nil (n := n / 10) (b := 10))
      have hzero := ih (n / 10) (by omega) (by rw [hcs] at h ⊢; exact h)
      omega

theorem parseUnsigned_toDigits (negative : Bool) (n : ℕ) (hzero : ¬ (negative = true ∧ n = 0))
    {rest : List Char} (h : NumberEnd rest) :
    parseUnsigned negative (Nat.toDigits 10 n ++ rest) =
      some (int (if negative then -(n : ℤ) else n), rest) := by
  have hdigits : ∀ c ∈ Nat.toDigits 10 n, c.isDigit = true := fun c hc =>
    Nat.isDigit_of_mem_toDigits (by omega) (by omega) hc
  obtain ⟨htake, hdrop⟩ := takeWhile_digits hdigits h
  have hleading : ¬ (Nat.toDigits 10 n = [] ∨
      ((Nat.toDigits 10 n).head? = some '0' ∧ (Nat.toDigits 10 n).length ≠ 1)) := by
    rintro (hnil | ⟨hhead, hlen⟩)
    · exact Nat.toDigits_ne_nil hnil
    · rw [eq_zero_of_head_toDigits hhead] at hlen
      exact hlen rfl
  simp only [parseUnsigned, htake, hdrop, if_neg hleading, parseFraction_end h,
    Option.bind_eq_bind, Option.bind_some, parseExponent_end h, Nat.ofDigitChars_ten_toDigits]
  rw [if_pos ⟨trivial, trivial, hzero⟩]

theorem parseNumber_renderInt (n : ℤ) {rest : List Char} (h : NumberEnd rest) :
    parseNumber (renderInt n ++ rest) = some (int n, rest) := by
  cases n with
  | ofNat n =>
    have hhead : ∀ t, Nat.toDigits 10 n ++ rest ≠ '-' :: t := by
      intro t ht
      obtain ⟨c, cs, hcs⟩ := List.exists_cons_of_ne_nil (Nat.toDigits_ne_nil (n := n) (b := 10))
      have hdigit := Nat.isDigit_of_mem_toDigits (n := n) (b := 10) (c := c) (by omega) (by omega)
        (by rw [hcs]; exact List.mem_cons_self)
      rw [hcs, List.cons_append] at ht
      rw [(List.cons.inj ht).1] at hdigit
      exact absurd hdigit (by decide)
    rw [renderInt, parseNumber, parseUnsigned_toDigits false n (by simp) h]
    · rfl
    · exact hhead
  | negSucc n =>
    rw [renderInt, List.cons_append, parseNumber, parseUnsigned_toDigits true (n + 1) (by simp) h]
    rfl

mutual

/-- No number of the value is kept as the text of a float. -/
def Integral : Json → Prop
  | float _ => False
  | arr vs => IntegralElems vs
  | obj ms => IntegralMembers ms
  | _ => True

/-- The same for the elements of an array. -/
def IntegralElems : List Json → Prop
  | [] => True
  | v :: vs => Integral v ∧ IntegralElems vs

/-- The same for the members of an object. -/
def IntegralMembers : List (List Char × Json) → Prop
  | [] => True
  | m :: ms => Integral m.2 ∧ IntegralMembers ms

end

mutual

/-- Every number that is kept as a text is one that the parser reads as a whole. -/
def Readable : Json → Prop
  | float text => parseNumber text = some (float text, [])
  | arr vs => ReadableElems vs
  | obj ms => ReadableMembers ms
  | _ => True

/-- The same for the elements of an array. -/
def ReadableElems : List Json → Prop
  | [] => True
  | v :: vs => Readable v ∧ ReadableElems vs

/-- The same for the members of an object. -/
def ReadableMembers : List (List Char × Json) → Prop
  | [] => True
  | m :: ms => Readable m.2 ∧ ReadableMembers ms

end

mutual

theorem Integral.readable : ∀ {v : Json}, v.Integral → v.Readable
  | .null, _ => trivial
  | .bool _, _ => trivial
  | .int _, _ => trivial
  | .float _, h => absurd h id
  | .str _, _ => trivial
  | .arr _, h => IntegralElems.readable h
  | .obj _, h => IntegralMembers.readable h

theorem IntegralElems.readable : ∀ {vs : List Json}, IntegralElems vs → ReadableElems vs
  | [], _ => trivial
  | _ :: _, h => ⟨Integral.readable h.1, IntegralElems.readable h.2⟩

theorem IntegralMembers.readable :
    ∀ {ms : List (List Char × Json)}, IntegralMembers ms → ReadableMembers ms
  | [], _ => trivial
  | _ :: _, h => ⟨Integral.readable h.1, IntegralMembers.readable h.2⟩

end

/-- The text of a number begins with a digit or a sign. -/
theorem head_of_parseNumber {text : List Char} {p : Json × List Char}
    (h : parseNumber text = some p) : ∃ c cs, text = c :: cs ∧ (c.isDigit = true ∨ c = '-') := by
  cases text with
  | nil => cases h
  | cons c cs =>
    refine ⟨c, cs, rfl, ?_⟩
    by_cases hsign : c = '-'
    · exact Or.inr hsign
    · refine Or.inl ?_
      rw [parseNumber, parseUnsigned] at h
      · by_contra hdigit
        have hnone : (c :: cs).takeWhile Char.isDigit = [] := by
          rw [List.takeWhile_cons_of_neg hdigit]
        simp [hnone] at h
      · rintro rest ⟨rfl, -⟩
        exact hsign rfl

/-- The first character of the text of a value. -/
theorem head_render {v : Json} (h : v.Readable) :
    ∃ c cs, render v = c :: cs ∧ (c.isDigit = true ∨ c ∈ ['n', 't', 'f', '-', '"', '[', '{']) := by
  cases v with
  | null => exact ⟨_, _, rfl, Or.inr (by decide)⟩
  | bool b => cases b <;> exact ⟨_, _, rfl, Or.inr (by decide)⟩
  | int n =>
    cases n with
    | ofNat n =>
      obtain ⟨c, cs, hcs⟩ := List.exists_cons_of_ne_nil (Nat.toDigits_ne_nil (n := n) (b := 10))
      refine ⟨c, cs, hcs, Or.inl (Nat.isDigit_of_mem_toDigits (n := n) (b := 10) (by omega)
        (by omega) ?_)⟩
      rw [hcs]
      exact List.mem_cons_self
    | negSucc n => exact ⟨_, _, rfl, Or.inr (by decide)⟩
  | float text =>
    obtain ⟨c, cs, htext, hdigit | rfl⟩ := head_of_parseNumber h
    · exact ⟨c, cs, htext, Or.inl hdigit⟩
    · exact ⟨'-', cs, htext, Or.inr (by decide)⟩
  | str s => exact ⟨_, _, rfl, Or.inr (by decide)⟩
  | arr vs => cases vs <;> exact ⟨_, _, rfl, Or.inr (by decide)⟩
  | obj ms => cases ms <;> exact ⟨_, _, rfl, Or.inr (by decide)⟩

theorem skipWs_of_head {c : Char} {cs : List Char}
    (hc : c.isDigit = true ∨ c ∈ ['n', 't', 'f', '-', '"', '[', '{', '}', ']', ',', ':']) :
    skipWs (c :: cs) = c :: cs := by
  have hws : (c == ' ' || c == '\n' || c == '\t' || c == '\r') = false := by
    rcases hc with hdigit | hmem
    · by_contra hne
      simp only [Bool.not_eq_false, Bool.or_eq_true, beq_iff_eq] at hne
      rcases hne with ((rfl | rfl) | rfl) | rfl <;> exact absurd hdigit (by decide)
    · have hall : (['n', 't', 'f', '-', '"', '[', '{', '}', ']', ',', ':'].all fun c =>
          !(c == ' ' || c == '\n' || c == '\t' || c == '\r')) = true := rfl
      exact Bool.not_eq_true' _ ▸ List.all_eq_true.mp hall c hmem
  rw [skipWs, List.dropWhile_cons_of_neg (by simp [hws])]

theorem skipWs_render {v : Json} (h : v.Readable) (rest : List Char) :
    skipWs (render v ++ rest) = render v ++ rest := by
  obtain ⟨c, cs, hcs, hc⟩ := head_render h
  rw [hcs, List.cons_append]
  have hsub : ['n', 't', 'f', '-', '"', '[', '{'] ⊆
      ['n', 't', 'f', '-', '"', '[', '{', '}', ']', ',', ':'] := by decide
  exact skipWs_of_head (hc.imp_right fun hmem => hsub hmem)

/-- Neither a bracket nor a brace begins the text of a value that closes its container. -/
theorem render_ne_close {v : Json} (h : v.Readable) (rest t : List Char) :
    render v ++ rest ≠ ']' :: t := by
  obtain ⟨c, cs, hcs, hc⟩ := head_render h
  intro heq
  rw [hcs, List.cons_append] at heq
  rw [(List.cons.inj heq).1] at hc
  revert hc
  decide

theorem numberEnd_renderElems (vs : List Json) (rest : List Char) :
    NumberEnd (renderElems vs ++ rest) := by
  cases vs <;> rintro c ⟨⟩ <;> decide

theorem numberEnd_renderMembers (ms : List (List Char × Json)) (rest : List Char) :
    NumberEnd (renderMembers ms ++ rest) := by
  cases ms <;> rintro c ⟨⟩ <;> decide

theorem parseString_append_quote (s rest : List Char) :
    parseString ((s.flatMap escapeChar ++ '"' :: rest).length + 1)
      (s.flatMap escapeChar ++ '"' :: rest) = some (s, rest) := by
  refine parseString_quote rest ?_
  have hlen : s.length ≤ (s.flatMap escapeChar).length := by
    induction s with
    | nil => exact Nat.le_refl _
    | cons c s ih =>
      have hpos : 1 ≤ (escapeChar c).length := by
        rw [escapeChar]
        split_ifs <;> simp
      rw [List.flatMap_cons, List.length_append, List.length_cons]
      omega
  rw [List.length_append]
  omega

theorem parseValue_bracket (n : ℕ) (rest : List Char) :
    parseValue (n + 1) ('[' :: rest) =
      (match skipWs rest with
        | ']' :: rest => some (arr [], rest)
        | rest => (parseElems n rest).map fun p => (arr p.1, p.2)) := rfl

theorem parseValue_brace (n : ℕ) (rest : List Char) :
    parseValue (n + 1) ('{' :: rest) =
      (match skipWs rest with
        | '}' :: rest => some (obj [], rest)
        | rest => (parseMembers n rest).map fun p => (obj p.1, p.2)) := rfl

theorem parseMembers_quote {k : List Char} {v : Json} {tail : List Char} {n : ℕ}
    (hvalue : parseValue n (render v ++ tail) = some (v, tail)) :
    parseMembers (n + 1) (quote k ++ ':' :: (render v ++ tail)) =
      (match skipWs tail with
        | '}' :: rest => some ([(k, v)], rest)
        | ',' :: rest => (parseMembers n rest).map fun p => ((k, v) :: p.1, p.2)
        | _ => none) := by
  have htext : quote k ++ ':' :: (render v ++ tail) =
      '"' :: (k.flatMap escapeChar ++ '"' :: ':' :: (render v ++ tail)) := by
    simp [quote]
  rw [htext, parseMembers, skipWs_of_head (Or.inr (by decide))]
  simp only [parseString_append_quote, skipWs_of_head (Or.inr (by decide) : _ ∨ ':' ∈ _), hvalue]

/-- The text of a number begins neither a literal, a string nor a container. -/
theorem number_ne_cons {text : List Char} {p : Json × List Char} (h : parseNumber text = some p)
    (rest t : List Char) {x : Char} (hx : x ∈ ['n', 't', 'f', '"', '[', '{']) :
    text ++ rest ≠ x :: t := by
  intro heq
  obtain ⟨c, cs, rfl, hc⟩ := head_of_parseNumber h
  rw [(List.cons.inj heq).1] at hc
  rcases hc with hdigit | rfl
  · have hall : (['n', 't', 'f', '"', '[', '{'].all fun c => !c.isDigit) = true := rfl
    have hnot := List.all_eq_true.mp hall x hx
    rw [hdigit] at hnot
    exact nomatch hnot
  · revert hx
    decide

/-- A value whose text is that of a number is read by the parser of numbers. -/
theorem parseValue_number {text rest : List Char} {v : Json} (h : parseNumber text = some (v, []))
    (hrest : NumberEnd rest) (n : ℕ) : parseValue (n + 1) (text ++ rest) = some (v, rest) := by
  have hne (x t) (hx : x ∈ ['n', 't', 'f', '"', '[', '{']) := number_ne_cons h rest t hx
  have hskip : skipWs (text ++ rest) = text ++ rest := by
    obtain ⟨c, cs, rfl, hdigit | rfl⟩ := head_of_parseNumber h
    · exact skipWs_of_head (Or.inl hdigit)
    · exact skipWs_of_head (Or.inr (by decide))
  rw [parseValue, hskip]
  split
  case h_7 => exact parseNumber_append h hrest
  all_goals exact absurd ‹_› (hne _ _ (by decide))

mutual

theorem parseValue_render : ∀ (v : Json) (n : ℕ) (rest : List Char), v.Readable →
    (render v).length ≤ n → NumberEnd rest → parseValue n (render v ++ rest) = some (v, rest)
  | v, 0, rest, hv, hn, _ => by
    obtain ⟨c, cs, hcs, -⟩ := head_render hv
    rw [hcs, List.length_cons] at hn
    omega
  | .null, n + 1, rest, _, _, _ => rfl
  | .bool true, n + 1, rest, _, _, _ => rfl
  | .bool false, n + 1, rest, _, _, _ => rfl
  | .int i, n + 1, rest, _, _, hrest => by
    have hnumber : parseNumber (renderInt i) = some (.int i, []) := by
      have hnil : NumberEnd [] := fun c hc => absurd hc (by simp)
      have hend := parseNumber_renderInt i hnil
      rwa [List.append_nil] at hend
    exact parseValue_number hnumber hrest n
  | .float text, n + 1, rest, hv, _, hrest => parseValue_number hv hrest n
  | .str s, n + 1, rest, hv, _, _ => by
    have htext : render (.str s) ++ rest = '"' :: (s.flatMap escapeChar ++ '"' :: rest) := by
      simp [render, quote]
    rw [parseValue, skipWs_render hv, htext]
    show (parseString _ _).map _ = _
    rw [parseString_append_quote]
    rfl
  | .arr [], n + 1, rest, _, _, _ => rfl
  | .arr (v :: vs), n + 1, rest, hv, hn, _ => by
    have htext : render (.arr (v :: vs)) ++ rest =
        '[' :: (render v ++ (renderElems vs ++ rest)) := by
      simp [render]
    obtain ⟨hv, hvs⟩ := id hv
    have hlen : (render v ++ renderElems vs).length ≤ n := by
      simpa [render] using hn
    have helems := parseElems_render v vs n rest hv hvs hlen
    rw [htext, parseValue_bracket, skipWs_render hv]
    split
    · exact absurd ‹_› (render_ne_close hv _ _)
    · rw [helems]
      rfl
  | .obj [], n + 1, rest, _, _, _ => rfl
  | .obj (m :: ms), n + 1, rest, hv, hn, _ => by
    have htext : render (.obj (m :: ms)) ++ rest =
        '{' :: (quote m.1 ++ ':' :: (render m.2 ++ (renderMembers ms ++ rest))) := by
      simp [render]
    obtain ⟨hv, hms⟩ := id hv
    have hlen : (quote m.1 ++ ':' :: (render m.2 ++ renderMembers ms)).length ≤ n := by
      simpa [render] using hn
    have hmembers := parseMembers_render m ms n rest hv hms hlen
    rw [htext, parseValue_brace, quote, List.cons_append, skipWs_of_head (Or.inr (by decide)),
      ← List.cons_append, ← quote]
    split
    · next heq => simp [quote] at heq
    · rw [hmembers]
      rfl

theorem parseElems_render : ∀ (v : Json) (vs : List Json) (n : ℕ) (rest : List Char), v.Readable →
    ReadableElems vs → (render v ++ renderElems vs).length ≤ n →
      parseElems n (render v ++ (renderElems vs ++ rest)) = some (v :: vs, rest)
  | v, vs, 0, rest, hv, _, hn => by
    obtain ⟨c, cs, hcs, -⟩ := head_render hv
    rw [hcs, List.cons_append, List.length_cons] at hn
    omega
  | v, [], n + 1, rest, hv, _, hn => by
    have hlen : (render v).length ≤ n := by simpa [renderElems] using hn
    rw [parseElems, parseValue_render v n _ hv hlen (numberEnd_renderElems [] rest)]
    rfl
  | v, w :: vs, n + 1, rest, hv, hvs, hn => by
    have hlen : (render v).length ≤ n ∧ (render w ++ renderElems vs).length ≤ n := by
      simp only [renderElems, List.length_append, List.length_cons] at hn ⊢
      omega
    have htail : renderElems (w :: vs) ++ rest = ',' :: (render w ++ (renderElems vs ++ rest)) := by
      simp [renderElems]
    rw [parseElems, parseValue_render v n _ hv hlen.1 (numberEnd_renderElems (w :: vs) rest), htail]
    show (parseElems n (render w ++ (renderElems vs ++ rest))).map _ = _
    rw [parseElems_render w vs n rest hvs.1 hvs.2 hlen.2]
    rfl

theorem parseMembers_render : ∀ (m : List Char × Json) (ms : List (List Char × Json)) (n : ℕ)
    (rest : List Char), m.2.Readable → ReadableMembers ms →
      (quote m.1 ++ ':' :: (render m.2 ++ renderMembers ms)).length ≤ n →
      parseMembers n (quote m.1 ++ ':' :: (render m.2 ++ (renderMembers ms ++ rest))) =
        some (m :: ms, rest)
  | m, ms, 0, rest, _, _, hn => by
    simp [quote] at hn
  | m, [], n + 1, rest, hv, _, hn => by
    have hlen : (render m.2).length ≤ n := by
      simp only [List.length_append, List.length_cons] at hn
      omega
    rw [parseMembers_quote (parseValue_render m.2 n _ hv hlen (numberEnd_renderMembers [] rest))]
    rfl
  | m, m' :: ms, n + 1, rest, hv, hms, hn => by
    have hlen : (render m.2).length ≤ n ∧
        (quote m'.1 ++ ':' :: (render m'.2 ++ renderMembers ms)).length ≤ n := by
      simp only [renderMembers, List.length_append, List.length_cons] at hn ⊢
      omega
    have htail : renderMembers (m' :: ms) ++ rest =
        ',' :: (quote m'.1 ++ ':' :: (render m'.2 ++ (renderMembers ms ++ rest))) := by
      simp [renderMembers]
    rw [parseMembers_quote
      (parseValue_render m.2 n _ hv hlen.1 (numberEnd_renderMembers (m' :: ms) rest)), htail]
    show (parseMembers n _).map _ = _
    rw [parseMembers_render m' ms n rest hms.1 hms.2 hlen.2]
    rfl

end

/-- The compact text of a readable value parses back to it. -/
theorem Readable.parse_render {v : Json} (h : v.Readable) : parse (render v) = some v := by
  have hvalue := parseValue_render v ((render v).length + 1) [] h (Nat.le_succ _)
    (fun c hc => absurd hc (by simp))
  rw [List.append_nil] at hvalue
  rw [parse, hvalue]
  rfl

/-- A compact text parses back to its value. -/
theorem parse_render {v : Json} (h : v.Integral) : parse (render v) = some v :=
  h.readable.parse_render

end Json

end Buzz.Library
