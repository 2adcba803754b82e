import Buzz.Library.Json

/-!
# The strings of a parsed text

The parser makes no string that is longer than what it has read: an escape is never shorter than its
character.

## Main definitions

* `Json.stringLength`: the characters of all strings of a value, names excepted.

## Main results

* `Json.stringLength_parse`: there are no more of them than characters in the text.
-/

namespace Buzz.Library.Json

mutual

/-- The characters of the strings of a value. -/
def stringLength : Json → ℕ
  | str s => s.length
  | arr vs => stringLengthElems vs
  | obj ms => stringLengthMembers ms
  | _ => 0

/-- The same for the elements of an array. -/
def stringLengthElems : List Json → ℕ
  | [] => 0
  | v :: vs => stringLength v + stringLengthElems vs

/-- The same for the members of an object. -/
def stringLengthMembers : List (List Char × Json) → ℕ
  | [] => 0
  | m :: ms => stringLength m.2 + stringLengthMembers ms

end

theorem stringLength_le_of_mem {v : Json} {vs : List Json} (h : v ∈ vs) :
    v.stringLength ≤ (arr vs).stringLength := by
  rw [stringLength]
  induction vs with
  | nil => cases h
  | cons w vs ih =>
    rw [stringLengthElems]
    rcases List.mem_cons.mp h with rfl | h
    · exact Nat.le_add_right _ _
    · exact (ih h).trans (Nat.le_add_left _ _)

/-! ### What is left after a part -/

theorem length_unescapeUnicode {unit : ℕ} {cs rest : List Char} {c : Char}
    (h : unescapeUnicode unit cs = some (c, rest)) : rest.length ≤ cs.length := by
  unfold unescapeUnicode at h
  split_ifs at h
  · obtain ⟨-, rfl⟩ := Prod.mk.inj (Option.some.inj h)
    exact le_rfl
  · split at h
    · split at h
      · split_ifs at h
        obtain ⟨-, rfl⟩ := Prod.mk.inj (Option.some.inj h)
        simp only [List.length_cons]
        omega
      · cases h
    · cases h

theorem length_unescape {cs rest : List Char} {c : Char} (h : unescape cs = some (c, rest)) :
    rest.length < cs.length := by
  unfold unescape at h
  split at h
  · cases h
  · next a cs =>
    have hfound {x : Char} {left : List Char} (h : some (x, left) = some (c, rest)) :
        left = rest := (Prod.mk.inj (Option.some.inj h)).2
    by_cases hslash : a = '\\'
    · rw [if_pos hslash] at h
      split at h
      · cases h
      · next e left =>
        rw [List.length_cons, List.length_cons]
        by_cases hunicode : e = 'u'
        · subst hunicode
          simp only [Char.reduceEq, if_false, if_true] at h
          split at h
          · next x y z w left =>
            obtain ⟨unit, -, h⟩ := Option.bind_eq_some_iff.mp h
            have hle := length_unescapeUnicode h
            simp only [List.length_cons]
            omega
          · cases h
        · have hrest : left = rest := by
            split_ifs at h
            all_goals exact hfound h
          rw [hrest]
          omega
    · rw [if_neg hslash] at h
      split_ifs at h
      rw [hfound h]
      exact Nat.lt_succ_self _

theorem length_parseString {n : ℕ} {cs s rest : List Char}
    (h : parseString n cs = some (s, rest)) : s.length + rest.length < cs.length := by
  fun_induction parseString n cs generalizing s with
  | case1 => cases h
  | case2 =>
    obtain ⟨rfl, rfl⟩ := Prod.mk.inj (Option.some.inj h)
    simp
  | case3 => cases h
  | case4 n cs _ c left hunescape ih =>
    obtain ⟨⟨tail, rest'⟩, htail, heq⟩ := Option.map_eq_some_iff.mp h
    obtain ⟨rfl, rfl⟩ := Prod.mk.inj heq
    have hleft := length_unescape hunescape
    have hrest := ih htail
    dsimp only at hrest ⊢
    rw [List.length_cons]
    omega

theorem length_skipWs (cs : List Char) : (skipWs cs).length ≤ cs.length :=
  (List.dropWhile_suffix _).length_le

theorem length_dropDigits (cs : List Char) : (cs.dropWhile Char.isDigit).length ≤ cs.length :=
  (List.dropWhile_suffix _).length_le

theorem length_parseFraction {cs fraction rest : List Char}
    (h : parseFraction cs = some (fraction, rest)) : rest.length ≤ cs.length := by
  unfold parseFraction at h
  split at h
  · next digits =>
    dsimp only at h
    split_ifs at h
    obtain ⟨-, rfl⟩ := Prod.mk.inj (Option.some.inj h)
    exact (length_dropDigits digits).trans (Nat.le_succ _)
  · obtain ⟨-, rfl⟩ := Prod.mk.inj (Option.some.inj h)
    exact le_rfl

theorem length_parseExponent {cs exponent rest : List Char}
    (h : parseExponent cs = some (exponent, rest)) : rest.length ≤ cs.length := by
  cases cs with
  | nil =>
    obtain ⟨-, rfl⟩ := Prod.mk.inj (Option.some.inj h)
    exact le_rfl
  | cons e cs =>
    by_cases he : e = 'e' ∨ e = 'E'
    · rw [parseExponent_cons he] at h
      split_ifs at h
      obtain ⟨-, rfl⟩ := Prod.mk.inj (Option.some.inj h)
      have hdigits := length_dropDigits (cs.drop (exponentSign cs).length)
      rw [List.length_drop] at hdigits
      rw [List.length_cons]
      omega
    · have hnone : parseExponent (e :: cs) = some ([], e :: cs) := if_neg he
      rw [hnone] at h
      obtain ⟨-, rfl⟩ := Prod.mk.inj (Option.some.inj h)
      exact le_rfl

theorem length_parseUnsigned {negative : Bool} {cs rest : List Char} {v : Json}
    (h : parseUnsigned negative cs = some (v, rest)) :
    v.stringLength = 0 ∧ rest.length ≤ cs.length := by
  unfold parseUnsigned at h
  dsimp only at h
  by_cases hdigits : cs.takeWhile Char.isDigit = [] ∨
      ((cs.takeWhile Char.isDigit).head? = some '0' ∧ (cs.takeWhile Char.isDigit).length ≠ 1)
  · rw [if_pos hdigits] at h
    cases h
  · rw [if_neg hdigits] at h
    obtain ⟨⟨fraction, rest₁⟩, hfraction, h₁⟩ := Option.bind_eq_some_iff.mp h
    obtain ⟨⟨exponent, rest₂⟩, hexponent, h₂⟩ := Option.bind_eq_some_iff.mp h₁
    have hle := (length_parseExponent hexponent).trans
      ((length_parseFraction hfraction).trans (length_dropDigits cs))
    dsimp only at h₂
    split at h₂
    all_goals
      obtain ⟨rfl, rfl⟩ := Prod.mk.inj (Option.some.inj h₂)
      exact ⟨rfl, hle⟩

theorem length_parseNumber {cs rest : List Char} {v : Json} (h : parseNumber cs = some (v, rest)) :
    v.stringLength = 0 ∧ rest.length ≤ cs.length := by
  unfold parseNumber at h
  split at h
  · obtain ⟨hzero, hle⟩ := length_parseUnsigned h
    exact ⟨hzero, hle.trans (Nat.le_succ _)⟩
  · exact length_parseUnsigned h

/-! ### Values -/

/-- The strings that are parsed with some fuel, and what is left, are no longer than the text. -/
structure Bounded (n : ℕ) : Prop where
  value : ∀ {cs rest v}, parseValue n cs = some (v, rest) →
    v.stringLength + rest.length ≤ cs.length
  elems : ∀ {cs rest vs}, parseElems n cs = some (vs, rest) →
    stringLengthElems vs + rest.length ≤ cs.length
  members : ∀ {cs rest ms}, parseMembers n cs = some (ms, rest) →
    stringLengthMembers ms + rest.length ≤ cs.length

variable {n : ℕ} {cs rest : List Char}

theorem Bounded.value_succ (ih : Bounded n) {v : Json}
    (h : parseValue (n + 1) cs = some (v, rest)) : v.stringLength + rest.length ≤ cs.length := by
  have hskip := length_skipWs cs
  rw [parseValue] at h
  generalize skipWs cs = text at h hskip
  split at h
  · obtain ⟨rfl, rfl⟩ := Prod.mk.inj (Option.some.inj h)
    simp only [List.length_cons, stringLength] at hskip ⊢
    omega
  · obtain ⟨rfl, rfl⟩ := Prod.mk.inj (Option.some.inj h)
    simp only [List.length_cons, stringLength] at hskip ⊢
    omega
  · obtain ⟨rfl, rfl⟩ := Prod.mk.inj (Option.some.inj h)
    simp only [List.length_cons, stringLength] at hskip ⊢
    omega
  · obtain ⟨⟨s, left⟩, hs, heq⟩ := Option.map_eq_some_iff.mp h
    obtain ⟨rfl, rfl⟩ := Prod.mk.inj heq
    have hlt := length_parseString hs
    simp only [List.length_cons, stringLength] at hskip ⊢
    omega
  · next left =>
    have hleft := length_skipWs left
    generalize skipWs left = inner at h hleft
    split at h
    · obtain ⟨rfl, rfl⟩ := Prod.mk.inj (Option.some.inj h)
      simp only [List.length_cons, stringLength, stringLengthElems] at hskip hleft ⊢
      omega
    · obtain ⟨⟨vs, left⟩, hvs, heq⟩ := Option.map_eq_some_iff.mp h
      obtain ⟨rfl, rfl⟩ := Prod.mk.inj heq
      have hle := ih.elems hvs
      simp only [List.length_cons, stringLength] at hskip ⊢
      omega
  · next left =>
    have hleft := length_skipWs left
    generalize skipWs left = inner at h hleft
    split at h
    · obtain ⟨rfl, rfl⟩ := Prod.mk.inj (Option.some.inj h)
      simp only [List.length_cons, stringLength, stringLengthMembers] at hskip hleft ⊢
      omega
    · obtain ⟨⟨ms, left⟩, hms, heq⟩ := Option.map_eq_some_iff.mp h
      obtain ⟨rfl, rfl⟩ := Prod.mk.inj heq
      have hle := ih.members hms
      simp only [List.length_cons, stringLength] at hskip ⊢
      omega
  · obtain ⟨hzero, hle⟩ := length_parseNumber h
    omega

theorem Bounded.elems_succ (ih : Bounded n) {vs : List Json}
    (h : parseElems (n + 1) cs = some (vs, rest)) :
    stringLengthElems vs + rest.length ≤ cs.length := by
  rw [parseElems] at h
  split at h
  · cases h
  · next v left hvalue =>
    have hleft := ih.value hvalue
    have hskip := length_skipWs left
    generalize skipWs left = inner at h hskip
    split at h
    · obtain ⟨rfl, rfl⟩ := Prod.mk.inj (Option.some.inj h)
      simp only [List.length_cons, stringLengthElems] at hskip ⊢
      omega
    · obtain ⟨⟨vs, left⟩, hvs, heq⟩ := Option.map_eq_some_iff.mp h
      obtain ⟨rfl, rfl⟩ := Prod.mk.inj heq
      have hle := ih.elems hvs
      simp only [List.length_cons, stringLengthElems] at hskip ⊢
      omega
    · cases h

theorem Bounded.members_succ (ih : Bounded n) {ms : List (List Char × Json)}
    (h : parseMembers (n + 1) cs = some (ms, rest)) :
    stringLengthMembers ms + rest.length ≤ cs.length := by
  have hskip := length_skipWs cs
  rw [parseMembers] at h
  generalize skipWs cs = text at h hskip
  split at h
  · split at h
    · cases h
    · next k left hk =>
      have hlt := length_parseString hk
      have hcolon := length_skipWs left
      generalize skipWs left = inner at h hcolon
      split at h
      · split at h
        · cases h
        · next v after hvalue =>
          have hafter := ih.value hvalue
          have hend := length_skipWs after
          generalize skipWs after = last at h hend
          split at h
          · obtain ⟨rfl, rfl⟩ := Prod.mk.inj (Option.some.inj h)
            simp only [List.length_cons, stringLengthMembers] at hskip hlt hcolon hend ⊢
            omega
          · obtain ⟨⟨ms, left⟩, hms, heq⟩ := Option.map_eq_some_iff.mp h
            obtain ⟨rfl, rfl⟩ := Prod.mk.inj heq
            have hle := ih.members hms
            simp only [List.length_cons, stringLengthMembers] at hskip hlt hcolon hend ⊢
            omega
          · cases h
      · cases h
  · cases h

theorem bounded (n : ℕ) : Bounded n := by
  induction n with
  | zero => exact ⟨nofun, nofun, nofun⟩
  | succ n ih => exact ⟨ih.value_succ, ih.elems_succ, ih.members_succ⟩

/-- The strings of a parsed text are no longer than it. -/
theorem stringLength_parse {cs : List Char} {v : Json} (h : parse cs = some v) :
    v.stringLength ≤ cs.length := by
  unfold parse at h
  split at h
  · next w rest hvalue =>
    split_ifs at h
    obtain rfl := Option.some.inj h
    exact (Nat.le_add_right _ _).trans ((bounded _).value hvalue)
  · cases h

end Buzz.Library.Json
