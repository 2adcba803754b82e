import Buzz.Library.Json

/-!
# The grammar of JSON texts

RFC 8259 as a relation between values and their texts, with white space and every spelling of
strings and numbers. What the parser of JSON texts accepts is in the grammar.

## Main definitions

* `IsWhiteSpace`, `CharText`, `StringText`, `NumberText`: the tokens.
* `ValueText`, `SpacedText`, `ElemsText`, `MembersText`: the values, and a value with white space
  around it, which is what a whole text is.

## Main results

* `spacedText_of_parse`: a text that is parsed is in the grammar.
-/

namespace Buzz.Library.Json

/-! ### Tokens -/

/-- `ws`. -/
def IsWhiteSpace (cs : List Char) : Prop := ∀ c ∈ cs, c = ' ' ∨ c = '\n' ∨ c = '\t' ∨ c = '\r'

/-- The escapes by one letter. -/
def letterEscapes : List (Char × Char) :=
  [('"', '"'), ('\\', '\\'), ('/', '/'), ('b', Char.ofNat 8), ('f', Char.ofNat 12), ('n', '\n'),
    ('r', '\r'), ('t', '\t')]

/-- `char`, the text of one character inside a string. -/
inductive CharText : Char → List Char → Prop
  | unescaped {c : Char} (hcontrol : ¬ c.toNat < 32) (hquote : c ≠ '"') (hslash : c ≠ '\\') :
      CharText c [c]
  | letter {e c : Char} (h : (e, c) ∈ letterEscapes) : CharText c ['\\', e]
  | unicode {a b c d : Char} {unit : ℕ} (h : hexUnit a b c d = some unit)
      (hunit : unit < 0xD800 ∨ 0xDFFF < unit) : CharText (Char.ofNat unit) ['\\', 'u', a, b, c, d]
  | surrogates {a b c d a' b' c' d' : Char} {high low : ℕ} (h : hexUnit a b c d = some high)
      (h' : hexUnit a' b' c' d' = some low) (hhigh : 0xD800 ≤ high ∧ high < 0xDC00)
      (hlow : 0xDC00 ≤ low ∧ low ≤ 0xDFFF) :
      CharText (Char.ofNat (0x10000 + (high - 0xD800) * 0x400 + (low - 0xDC00)))
        ['\\', 'u', a, b, c, d, '\\', 'u', a', b', c', d']

/-- The text of a string between its quotes. -/
inductive StringText : List Char → List Char → Prop
  | nil : StringText [] []
  | cons {c : Char} {s text text' : List Char} (h : CharText c text) (hs : StringText s text') :
      StringText (c :: s) (text ++ text')

/-- `1*DIGIT`. -/
def IsDigits (ds : List Char) : Prop := ds ≠ [] ∧ ∀ c ∈ ds, c.isDigit = true

/-- `int`: no zero leads further digits. -/
def IsInt (ds : List Char) : Prop := IsDigits ds ∧ (ds.head? = some '0' → ds.length = 1)

/-- `[ frac ]`. -/
def IsFraction (cs : List Char) : Prop := cs = [] ∨ ∃ ds, cs = '.' :: ds ∧ IsDigits ds

/-- `[ exp ]`. -/
def IsExponent (cs : List Char) : Prop :=
  cs = [] ∨ ∃ e sign ds, cs = e :: (sign ++ ds) ∧ (e = 'e' ∨ e = 'E') ∧
    (sign = [] ∨ sign = ['+'] ∨ sign = ['-']) ∧ IsDigits ds

/-- `number`, as an integer or as its text. -/
inductive NumberText : Json → List Char → Prop
  | natural {ds : List Char} (h : IsInt ds) : NumberText (int (Nat.ofDigitChars 10 ds 0)) ds
  | negative {ds : List Char} (h : IsInt ds) :
      NumberText (int (-(Nat.ofDigitChars 10 ds 0 : ℤ))) ('-' :: ds)
  | float {minus ds fraction exponent : List Char} (hminus : minus = [] ∨ minus = ['-'])
      (h : IsInt ds) (hfraction : IsFraction fraction) (hexponent : IsExponent exponent) :
      NumberText (float (minus ++ ds ++ fraction ++ exponent))
        (minus ++ ds ++ fraction ++ exponent)

/-! ### Values -/

mutual

/-- `value`. -/
inductive ValueText : Json → List Char → Prop
  | null : ValueText null ['n', 'u', 'l', 'l']
  | true : ValueText (bool true) ['t', 'r', 'u', 'e']
  | false : ValueText (bool false) ['f', 'a', 'l', 's', 'e']
  | number {v : Json} {text : List Char} (h : NumberText v text) : ValueText v text
  | str {s text : List Char} (h : StringText s text) : ValueText (str s) ('"' :: (text ++ ['"']))
  | emptyArr {ws : List Char} (h : IsWhiteSpace ws) : ValueText (arr []) ('[' :: (ws ++ [']']))
  | arr {vs : List Json} {text : List Char} (h : ElemsText vs text) :
      ValueText (arr vs) ('[' :: (text ++ [']']))
  | emptyObj {ws : List Char} (h : IsWhiteSpace ws) : ValueText (obj []) ('{' :: (ws ++ ['}']))
  | obj {ms : List (List Char × Json)} {text : List Char} (h : MembersText ms text) :
      ValueText (obj ms) ('{' :: (text ++ ['}']))

/-- `ws value ws`, which is also `JSON-text`. -/
inductive SpacedText : Json → List Char → Prop
  | mk {v : Json} {before text after : List Char} (hbefore : IsWhiteSpace before)
      (h : ValueText v text) (hafter : IsWhiteSpace after) :
      SpacedText v (before ++ text ++ after)

/-- `value *( value-separator value )`. -/
inductive ElemsText : List Json → List Char → Prop
  | last {v : Json} {text : List Char} (h : SpacedText v text) : ElemsText [v] text
  | cons {v : Json} {vs : List Json} {text text' : List Char} (h : SpacedText v text)
      (hs : ElemsText vs text') : ElemsText (v :: vs) (text ++ ',' :: text')

/-- `member *( value-separator member )`. -/
inductive MembersText : List (List Char × Json) → List Char → Prop
  | last {k : List Char} {v : Json} {before name after text : List Char}
      (hbefore : IsWhiteSpace before) (hname : StringText k name) (hafter : IsWhiteSpace after)
      (h : SpacedText v text) :
      MembersText [(k, v)] (before ++ '"' :: (name ++ '"' :: (after ++ ':' :: text)))
  | cons {k : List Char} {v : Json} {ms : List (List Char × Json)}
      {before name after text text' : List Char} (hbefore : IsWhiteSpace before)
      (hname : StringText k name) (hafter : IsWhiteSpace after) (h : SpacedText v text)
      (hs : MembersText ms text') :
      MembersText ((k, v) :: ms)
        (before ++ '"' :: (name ++ '"' :: (after ++ ':' :: (text ++ ',' :: text'))))

end

/-! ### The parser reads tokens of the grammar -/

variable {cs rest : List Char}

theorem exists_whiteSpace (cs : List Char) :
    ∃ ws, IsWhiteSpace ws ∧ cs = ws ++ skipWs cs := by
  refine ⟨_, fun c hc => ?_, List.takeWhile_append_dropWhile.symm⟩
  have hws := List.mem_takeWhile_imp hc
  simpa only [Bool.or_eq_true, beq_iff_eq, or_assoc] using hws

theorem charText_of_unescapeUnicode {a b c d x : Char} {unit : ℕ}
    (h : hexUnit a b c d = some unit) (hchar : unescapeUnicode unit cs = some (x, rest)) :
    ∃ text, '\\' :: 'u' :: a :: b :: c :: d :: cs = text ++ rest ∧ CharText x text := by
  unfold unescapeUnicode at hchar
  split_ifs at hchar with hunit hlow
  · cases hchar
    exact ⟨_, rfl, .unicode h hunit⟩
  · split at hchar
    · next a' b' c' d' t =>
      split at hchar
      · next low hlow' =>
        split_ifs at hchar with hrange
        obtain ⟨hx, hrest⟩ := Prod.mk.inj (Option.some.inj hchar)
        have hhigh : 0xD800 ≤ unit ∧ unit < 0xDC00 :=
          ⟨Nat.not_lt.mp (not_or.mp hunit).1, Nat.not_le.mp hlow⟩
        refine ⟨['\\', 'u', a, b, c, d, '\\', 'u', a', b', c', d'], ?_, ?_⟩
        · rw [hrest]
          rfl
        · rw [← hx]
          exact .surrogates h hlow' hhigh hrange
      · cases hchar
    · cases hchar

theorem charText_of_unescape {x : Char} (h : unescape cs = some (x, rest))
    (hquote : ∀ t, cs ≠ '"' :: t) : ∃ text, cs = text ++ rest ∧ CharText x text := by
  have hletter {e c : Char} {t : List Char} (he : (e, c) ∈ letterEscapes)
      (hx : some (c, t) = some (x, rest)) :
      ∃ text, '\\' :: e :: t = text ++ rest ∧ CharText x text := by
    cases hx
    exact ⟨['\\', e], rfl, .letter he⟩
  cases cs with
  | nil => cases h
  | cons c t =>
    by_cases hslash : c = '\\'
    · subst hslash
      cases t with
      | nil => cases h
      | cons e t =>
        simp only [unescape, if_pos] at h
        split_ifs at h with hq hs hsl hb hf hn hr ht hu
        · exact hletter (by rw [hq]; decide) h
        · exact hletter (by rw [hs]; decide) h
        · exact hletter (by rw [hsl]; decide) h
        · exact hletter (by rw [hb]; decide) h
        · exact hletter (by rw [hf]; decide) h
        · exact hletter (by rw [hn]; decide) h
        · exact hletter (by rw [hr]; decide) h
        · exact hletter (by rw [ht]; decide) h
        · subst hu
          split at h
          · obtain ⟨unit, hunit, hchar⟩ := Option.bind_eq_some_iff.mp h
            exact charText_of_unescapeUnicode hunit hchar
          · cases h
    · simp only [unescape, if_neg hslash] at h
      split_ifs at h with hcontrol
      cases h
      refine ⟨[x], rfl, .unescaped hcontrol ?_ hslash⟩
      rintro rfl
      exact hquote rest rfl

/-- A string is read up to its closing quote. -/
theorem stringText_of_parseString {n : ℕ} {s : List Char} (h : parseString n cs = some (s, rest)) :
    ∃ text, cs = text ++ '"' :: rest ∧ StringText s text := by
  induction n generalizing cs s with
  | zero => cases h
  | succ n ih =>
    by_cases hquote : ∃ t, cs = '"' :: t
    · obtain ⟨t, rfl⟩ := hquote
      cases h
      exact ⟨[], rfl, .nil⟩
    · have hne : ∀ t, cs ≠ '"' :: t := fun t ht => hquote ⟨t, ht⟩
      rw [parseString] at h
      · cases hchar : unescape cs with
        | none =>
          rw [hchar] at h
          cases h
        | some p =>
          obtain ⟨c, after⟩ := p
          rw [hchar] at h
          obtain ⟨⟨s, rest⟩, hs, heq⟩ := Option.map_eq_some_iff.mp h
          cases heq
          obtain ⟨text, rfl, htext⟩ := charText_of_unescape hchar hne
          obtain ⟨text', rfl, htext'⟩ := ih hs
          exact ⟨text ++ text', (List.append_assoc _ _ _).symm, .cons htext htext'⟩
      · exact hne

/-- Digits are read as far as they go. -/
theorem isDigits_takeWhile (h : cs.takeWhile Char.isDigit ≠ []) :
    IsDigits (cs.takeWhile Char.isDigit) :=
  ⟨h, fun _ hc => List.mem_takeWhile_imp hc⟩

theorem isFraction_of_parseFraction {fraction : List Char}
    (h : parseFraction cs = some (fraction, rest)) :
    cs = fraction ++ rest ∧ IsFraction fraction := by
  unfold parseFraction at h
  split at h
  · next t =>
    simp only at h
    split_ifs at h with hnil
    cases h
    exact ⟨congrArg _ List.takeWhile_append_dropWhile.symm,
      .inr ⟨_, rfl, isDigits_takeWhile hnil⟩⟩
  · cases h
    exact ⟨rfl, .inl rfl⟩

theorem exponentSign_spec (cs : List Char) :
    (exponentSign cs = [] ∨ exponentSign cs = ['+'] ∨ exponentSign cs = ['-']) ∧
      cs = exponentSign cs ++ cs.drop (exponentSign cs).length := by
  unfold exponentSign
  split
  · exact ⟨.inr (.inl rfl), rfl⟩
  · exact ⟨.inr (.inr rfl), rfl⟩
  · exact ⟨.inl rfl, rfl⟩

theorem isExponent_of_parseExponent {exponent : List Char}
    (h : parseExponent cs = some (exponent, rest)) :
    cs = exponent ++ rest ∧ IsExponent exponent := by
  cases cs with
  | nil =>
    cases h
    exact ⟨rfl, .inl rfl⟩
  | cons e cs =>
    by_cases he : e = 'e' ∨ e = 'E'
    · rw [parseExponent_cons he] at h
      split_ifs at h with hnil
      cases h
      obtain ⟨hsign, hcs⟩ := exponentSign_spec cs
      refine ⟨?_, .inr ⟨e, _, _, rfl, he, hsign, isDigits_takeWhile hnil⟩⟩
      rw [List.cons_append, List.append_assoc, List.takeWhile_append_dropWhile, ← hcs]
    · have hother : parseExponent (e :: cs) = some ([], e :: cs) := if_neg he
      cases hother.symm.trans h
      exact ⟨rfl, .inl rfl⟩

theorem numberText_of_parseUnsigned {negative : Bool} {v : Json}
    (h : parseUnsigned negative cs = some (v, rest)) :
    ∃ text, cs = text ++ rest ∧ NumberText v ((if negative then ['-'] else []) ++ text) := by
  rw [parseUnsigned] at h
  obtain ⟨hdigits, h⟩ := Option.ite_none_left_eq_some.mp h
  obtain ⟨hne, hzero⟩ := not_or.mp hdigits
  have hint : IsInt (cs.takeWhile Char.isDigit) :=
    ⟨isDigits_takeWhile hne, fun hhead => not_not.mp fun hlength => hzero ⟨hhead, hlength⟩⟩
  obtain ⟨⟨fraction, rest'⟩, hparsed, hread⟩ := Option.bind_eq_some_iff.mp h
  obtain ⟨⟨exponent, rest''⟩, hparsed', hvalue⟩ := Option.bind_eq_some_iff.mp hread
  obtain ⟨hdrop, hfraction⟩ := isFraction_of_parseFraction hparsed
  obtain ⟨hrest, hexponent⟩ := isExponent_of_parseExponent hparsed'
  have hcs : cs = cs.takeWhile Char.isDigit ++ fraction ++ exponent ++ rest'' := by
    rw [List.append_assoc, List.append_assoc, ← hrest, ← hdrop, List.takeWhile_append_dropWhile]
  by_cases hplain : fraction = [] ∧ exponent = [] ∧
      ¬ (negative = true ∧ Nat.ofDigitChars 10 (cs.takeWhile Char.isDigit) 0 = 0)
  · obtain ⟨hv, hr⟩ := Prod.mk.inj (Option.some.inj ((if_pos hplain).symm.trans hvalue))
    obtain ⟨rfl, rfl, -⟩ := hplain
    rw [List.append_nil, List.append_nil, hr] at hcs
    refine ⟨_, hcs, hv ▸ ?_⟩
    cases negative with
    | true => exact .negative hint
    | false => exact .natural hint
  · obtain ⟨hv, hr⟩ := Prod.mk.inj (Option.some.inj ((if_neg hplain).symm.trans hvalue))
    rw [hr] at hcs
    refine ⟨_, hcs, hv ▸ ?_⟩
    simp only [← List.append_assoc]
    cases negative with
    | true => exact .float (.inr rfl) hint hfraction hexponent
    | false => exact .float (.inl rfl) hint hfraction hexponent

theorem numberText_of_parseNumber {v : Json} (h : parseNumber cs = some (v, rest)) :
    ∃ text, cs = text ++ rest ∧ NumberText v text := by
  by_cases hminus : ∃ t, cs = '-' :: t
  · obtain ⟨t, rfl⟩ := hminus
    obtain ⟨text, rfl, htext⟩ := numberText_of_parseUnsigned h
    exact ⟨'-' :: text, rfl, htext⟩
  · rw [parseNumber] at h
    · exact numberText_of_parseUnsigned h
    · rintro t ⟨rfl, -⟩
      exact hminus ⟨t, rfl⟩

/-! ### The parser reads values of the grammar -/

theorem IsWhiteSpace.append {ws ws' : List Char} (h : IsWhiteSpace ws) (h' : IsWhiteSpace ws') :
    IsWhiteSpace (ws ++ ws') := List.forall_mem_append.mpr ⟨h, h'⟩

/-- White space may stand before a value. -/
theorem SpacedText.ws_append {v : Json} {ws text : List Char} (h : SpacedText v text)
    (hws : IsWhiteSpace ws) : SpacedText v (ws ++ text) := by
  obtain ⟨hbefore, hv, hafter⟩ := h
  rw [← List.append_assoc, ← List.append_assoc]
  exact .mk (hws.append hbefore) hv hafter

theorem ElemsText.ws_append {vs : List Json} {ws text : List Char} (h : ElemsText vs text)
    (hws : IsWhiteSpace ws) : ElemsText vs (ws ++ text) := by
  cases h with
  | last h => exact .last (h.ws_append hws)
  | cons h hs =>
    rw [← List.append_assoc]
    exact .cons (h.ws_append hws) hs

theorem MembersText.ws_append {ms : List (List Char × Json)} {ws text : List Char}
    (h : MembersText ms text) (hws : IsWhiteSpace ws) : MembersText ms (ws ++ text) := by
  cases h with
  | last hbefore hname hafter h =>
    rw [← List.append_assoc]
    exact .last (hws.append hbefore) hname hafter h
  | cons hbefore hname hafter h hs =>
    rw [← List.append_assoc]
    exact .cons (hws.append hbefore) hname hafter h hs

/-- A value with the white space that is skipped before it and after it. -/
theorem spacedText_of_skipWs {v : Json} {before text after : List Char}
    (hbefore : IsWhiteSpace before) (h : ValueText v text) {c : Char}
    (hafter : skipWs after = c :: rest) :
    ∃ spaced, before ++ text ++ after = spaced ++ c :: rest ∧ SpacedText v spaced := by
  obtain ⟨ws, hws, hsplit⟩ := exists_whiteSpace after
  refine ⟨before ++ text ++ ws, ?_, .mk hbefore h hws⟩
  rw [List.append_assoc _ ws, ← hafter, ← hsplit]

mutual

theorem valueText_of_parseValue : ∀ {n : ℕ} {cs rest : List Char} {v : Json},
    parseValue n cs = some (v, rest) →
      ∃ before text, cs = before ++ text ++ rest ∧ IsWhiteSpace before ∧ ValueText v text
  | 0, cs, rest, v, h => by cases h
  | n + 1, cs, rest, v, h => by
    obtain ⟨before, hbefore, hcs⟩ := exists_whiteSpace cs
    -- The value starts after the white space.
    have hstart {text : List Char} (htext : skipWs cs = text ++ rest) (hv : ValueText v text) :
        ∃ before text, cs = before ++ text ++ rest ∧ IsWhiteSpace before ∧ ValueText v text :=
      ⟨before, text, by rw [List.append_assoc, ← htext, ← hcs], hbefore, hv⟩
    rw [parseValue] at h
    split at h
    · next heq =>
      cases h
      exact hstart heq .null
    · next heq =>
      cases h
      exact hstart heq .true
    · next heq =>
      cases h
      exact hstart heq .false
    · next t heq =>
      obtain ⟨⟨s, t'⟩, hs, hv⟩ := Option.map_eq_some_iff.mp h
      cases hv
      obtain ⟨text, rfl, htext⟩ := stringText_of_parseString hs
      refine hstart ?_ (.str htext)
      rw [heq, List.cons_append, List.append_assoc, List.singleton_append]
    · next t heq =>
      obtain ⟨ws, hws, ht⟩ := exists_whiteSpace t
      split at h
      · next t' heq' =>
        cases h
        refine hstart ?_ (.emptyArr hws)
        rw [heq, ht, heq', List.cons_append, List.append_assoc, List.singleton_append]
      · obtain ⟨⟨vs, t'⟩, hvs, hv⟩ := Option.map_eq_some_iff.mp h
        cases hv
        obtain ⟨text, htext, hvs⟩ := elemsText_of_parseElems hvs
        refine hstart ?_ (.arr (hvs.ws_append hws))
        rw [heq, ht, htext, List.cons_append, ← List.append_assoc, List.append_assoc _ [']'],
          List.singleton_append]
    · next t heq =>
      obtain ⟨ws, hws, ht⟩ := exists_whiteSpace t
      split at h
      · next t' heq' =>
        cases h
        refine hstart ?_ (.emptyObj hws)
        rw [heq, ht, heq', List.cons_append, List.append_assoc, List.singleton_append]
      · obtain ⟨⟨ms, t'⟩, hms, hv⟩ := Option.map_eq_some_iff.mp h
        cases hv
        obtain ⟨text, htext, hms⟩ := membersText_of_parseMembers hms
        refine hstart ?_ (.obj (hms.ws_append hws))
        rw [heq, ht, htext, List.cons_append, ← List.append_assoc, List.append_assoc _ ['}'],
          List.singleton_append]
    · obtain ⟨text, htext, hv⟩ := numberText_of_parseNumber h
      exact hstart htext (.number hv)

theorem elemsText_of_parseElems : ∀ {n : ℕ} {cs rest : List Char} {vs : List Json},
    parseElems n cs = some (vs, rest) → ∃ text, cs = text ++ ']' :: rest ∧ ElemsText vs text
  | 0, cs, rest, vs, h => by cases h
  | n + 1, cs, rest, vs, h => by
    rw [parseElems] at h
    cases hvalue : parseValue n cs with
    | none =>
      rw [hvalue] at h
      cases h
    | some p =>
      obtain ⟨v, after⟩ := p
      rw [hvalue] at h
      obtain ⟨before, text, rfl, hbefore, hv⟩ := valueText_of_parseValue hvalue
      simp only at h
      split at h
      · next heq =>
        cases h
        obtain ⟨spaced, hspaced, hv⟩ := spacedText_of_skipWs hbefore hv heq
        exact ⟨spaced, hspaced, .last hv⟩
      · next heq =>
        obtain ⟨⟨ws, rest⟩, hws, hp⟩ := Option.map_eq_some_iff.mp h
        cases hp
        obtain ⟨spaced, hspaced, hv⟩ := spacedText_of_skipWs hbefore hv heq
        obtain ⟨text', rfl, hvs⟩ := elemsText_of_parseElems hws
        refine ⟨spaced ++ ',' :: text', ?_, .cons hv hvs⟩
        rw [hspaced, List.append_assoc, List.cons_append]
      · cases h

theorem membersText_of_parseMembers :
    ∀ {n : ℕ} {cs rest : List Char} {ms : List (List Char × Json)},
      parseMembers n cs = some (ms, rest) → ∃ text, cs = text ++ '}' :: rest ∧ MembersText ms text
  | 0, cs, rest, ms, h => by cases h
  | n + 1, cs, rest, ms, h => by
    obtain ⟨before, hbefore, hcs⟩ := exists_whiteSpace cs
    rw [parseMembers] at h
    split at h
    · next t heq =>
      cases hstring : parseString (t.length + 1) t with
      | none =>
        rw [hstring] at h
        cases h
      | some p =>
        obtain ⟨k, t'⟩ := p
        rw [hstring] at h
        obtain ⟨name, rfl, hname⟩ := stringText_of_parseString hstring
        obtain ⟨after, hafter, ht'⟩ := exists_whiteSpace t'
        simp only at h
        split at h
        · next t'' hcolon =>
          cases hvalue : parseValue n t'' with
          | none =>
            rw [hvalue] at h
            cases h
          | some q =>
            obtain ⟨v, u⟩ := q
            rw [hvalue] at h
            obtain ⟨ws, text, rfl, hws, hv⟩ := valueText_of_parseValue hvalue
            simp only at h
            rw [hcolon] at ht'
            split at h
            · next hend =>
              cases h
              obtain ⟨spaced, hspaced, hv⟩ := spacedText_of_skipWs hws hv hend
              refine ⟨_, ?_, .last hbefore hname hafter hv⟩
              rw [hcs, heq, ht', hspaced]
              simp only [List.append_assoc, List.cons_append]
            · next hend =>
              obtain ⟨⟨ms, rest⟩, hmore, hp⟩ := Option.map_eq_some_iff.mp h
              cases hp
              obtain ⟨spaced, hspaced, hv⟩ := spacedText_of_skipWs hws hv hend
              obtain ⟨text', rfl, hms⟩ := membersText_of_parseMembers hmore
              refine ⟨_, ?_, .cons hbefore hname hafter hv hms⟩
              rw [hcs, heq, ht', hspaced]
              simp only [List.append_assoc, List.cons_append]
            · cases h
        · cases h
    · cases h

end

/-- **Soundness.** A text that is parsed is in the grammar. -/
theorem spacedText_of_parse {v : Json} (h : parse cs = some v) : SpacedText v cs := by
  rw [parse] at h
  split at h
  · next v' rest hvalue =>
    obtain ⟨hend, hv⟩ := Option.ite_none_right_eq_some.mp h
    cases hv
    obtain ⟨before, text, rfl, hbefore, hv⟩ := valueText_of_parseValue hvalue
    obtain ⟨after, hafter, hrest⟩ := exists_whiteSpace rest
    rw [hend, List.append_nil] at hrest
    rw [hrest]
    exact .mk hbefore hv hafter
  · cases h

end Buzz.Library.Json
