import Buzz.GitSignNostr.Attestation

/-!
# What a git signature signs

The hash of `compute_signing_hash` is that of a domain separator, the time, the owner attestation if
there is one, and the payload, with colons between them. No length and no mark says whether there is
an attestation: that is read off the first byte of a git object, which is no hexadecimal digit.

SHA-256 is a parameter.

## Main definitions

* `signingPreimage`, `computeSigningHash`.
* `IsGitObject`: the payloads that git has signed.

## Main results

* `signingPreimage_injective`: the time, the attestation and the payload are all bound.
-/

namespace Buzz.GitSignNostr

open Buzz.Library

/-- The bytes that are fed to the hash. -/
def signingPreimage (timestamp : ℕ) (oa : Option OwnerAttestation) (payload : List UInt8) :
    List UInt8 :=
  let engine := utf8 "nostr:git:v1:".toList ++ utf8 (Nat.toDigits 10 timestamp) ++ utf8 [':']
  let engine := match oa with
    | some oa => engine ++ utf8 oa.owner ++ utf8 [':'] ++ utf8 oa.conditions ++ utf8 [':'] ++
        utf8 oa.ownerSig ++ utf8 [':']
    | none => engine
  engine ++ payload

def computeSigningHash (sha256 : List UInt8 → BitVec 256) (timestamp : ℕ)
    (oa : Option OwnerAttestation) (payload : List UInt8) : BitVec 256 :=
  sha256 (signingPreimage timestamp oa payload)

/-- A commit or a tag. -/
def IsGitObject (payload : List UInt8) : Prop :=
  utf8 "tree ".toList <+: payload ∨ utf8 "object ".toList <+: payload

/-! ### Fields that end with a colon -/

/-- A text of ASCII characters without a colon. -/
def IsField (text : List Char) : Prop := ∀ c ∈ text, c.toNat ≤ 127 ∧ c ≠ ':'

theorem isField_of_isHexText {digits : ℕ} {text : List Char} (h : IsHexText digits text) :
    IsField text := by
  intro c hc
  refine ⟨toNat_le_of_isLowercaseHex (h.2 c hc), ?_⟩
  rintro rfl
  exact absurd (h.2 _ hc) (by decide)

theorem isField_of_validateConditions {conditions : List Char}
    (h : validateConditions conditions = true) : IsField conditions := by
  have hall : ∀ c ∈ conditionChars, c.toNat ≤ 127 ∧ c ≠ ':' := forall_of_all (by decide)
  exact fun c hc => hall c (conditions_chars h c hc)

theorem isField_toDigits (n : ℕ) : IsField (Nat.toDigits 10 n) := by
  intro c hc
  have hdigit := Nat.isDigit_of_mem_toDigits (b := 10) (by omega) (by omega) hc
  refine ⟨?_, ?_⟩
  · rw [isDigit_iff] at hdigit
    omega
  · rintro rfl
    exact absurd hdigit (by decide)

/-- No byte of a field is that of a colon. -/
theorem ne_colon_of_mem_utf8 {text : List Char} (h : IsField text) {b : UInt8}
    (hb : b ∈ utf8 text) : b ≠ 58 := by
  rw [utf8_of_ascii fun c hc => (h c hc).1, List.mem_map] at hb
  obtain ⟨c, hc, rfl⟩ := hb
  obtain ⟨hascii, hcolon⟩ := h c hc
  intro heq
  have hnat := congrArg UInt8.toNat heq
  rw [UInt8.toNat_ofNat', Nat.mod_eq_of_lt (by omega)] at hnat
  exact hcolon (Char.toNat_inj.mp hnat)

theorem field_inj {text text' : List Char} {rest rest' : List UInt8} (h : IsField text)
    (h' : IsField text') (heq : utf8 text ++ 58 :: rest = utf8 text' ++ 58 :: rest') :
    text = text' ∧ rest = rest' := by
  obtain ⟨hbytes, -, hrest⟩ := append_cons_inj_of_not (· ≠ (58 : UInt8))
    (fun _ => ne_colon_of_mem_utf8 h) (fun _ => ne_colon_of_mem_utf8 h') (by simp) (by simp) heq
  exact ⟨utf8_inj hbytes, hrest⟩

/-! ### The preimage -/

/-- What is fed to the hash after the time. -/
def bound : Option OwnerAttestation → List UInt8 → List UInt8
  | none, payload => payload
  | some oa, payload =>
    utf8 oa.owner ++ 58 :: (utf8 oa.conditions ++ 58 :: (utf8 oa.ownerSig ++ 58 :: payload))

theorem utf8_colon : utf8 [':'] = [58] := by decide

theorem signingPreimage_eq (t : ℕ) (oa : Option OwnerAttestation) (payload : List UInt8) :
    signingPreimage t oa payload =
      utf8 "nostr:git:v1:".toList ++ (utf8 (Nat.toDigits 10 t) ++ 58 :: bound oa payload) := by
  cases oa <;> simp [signingPreimage, bound, utf8_colon]

/-- A git object does not start like an attestation. -/
theorem not_bound_some {oa : OwnerAttestation} {payload payload' : List UInt8}
    (howner : IsHexText 64 oa.owner) (hpayload : IsGitObject payload) :
    payload ≠ bound (some oa) payload' := by
  obtain ⟨c, cs, hcs⟩ := List.exists_cons_of_ne_nil (l := oa.owner) (by
    rintro hnil
    have hlength := howner.1
    rw [hnil] at hlength
    cases hlength)
  intro heq
  have hhead : payload.head? = some (UInt8.ofNat c.toNat) := by
    rw [heq, bound, utf8_of_ascii fun c hc => toNat_le_of_isLowercaseHex (howner.2 c hc), hcs]
    rfl
  obtain ⟨n, hn, hdigit⟩ := exists_hexDigit (howner.2 c (by rw [hcs]; exact List.mem_cons_self))
  have hletters : ∀ n < 16, UInt8.ofNat (hexDigit n).toNat ≠ 116 ∧
      UInt8.ofNat (hexDigit n).toNat ≠ 111 := by decide
  rcases hpayload with ⟨rest, hrest⟩ | ⟨rest, hrest⟩
  · have htree : payload.head? = some 116 := by
      rw [← hrest]
      rfl
    rw [hhead, hdigit] at htree
    exact (hletters n hn).1 (Option.some.inj htree)
  · have hobject : payload.head? = some 111 := by
      rw [← hrest]
      rfl
    rw [hhead, hdigit] at hobject
    exact (hletters n hn).2 (Option.some.inj hobject)

theorem bound_inj {oa oa' : Option OwnerAttestation} {payload payload' : List UInt8}
    (hoa : ∀ a ∈ oa, a.Shaped) (hoa' : ∀ a ∈ oa', a.Shaped) (hpayload : IsGitObject payload)
    (hpayload' : IsGitObject payload') (h : bound oa payload = bound oa' payload') :
    oa = oa' ∧ payload = payload' := by
  cases oa with
  | none =>
    cases oa' with
    | none => exact ⟨rfl, h⟩
    | some a' => exact absurd h (not_bound_some (hoa' a' rfl).owner hpayload)
  | some a =>
    cases oa' with
    | none => exact absurd h.symm (not_bound_some (hoa a rfl).owner hpayload')
    | some a' =>
      have hshaped := hoa a rfl
      have hshaped' := hoa' a' rfl
      obtain ⟨howner, hrest⟩ := field_inj (isField_of_isHexText hshaped.owner)
        (isField_of_isHexText hshaped'.owner) h
      obtain ⟨hconditions, hrest⟩ := field_inj (isField_of_validateConditions hshaped.conditions)
        (isField_of_validateConditions hshaped'.conditions) hrest
      obtain ⟨hsig, hpayload⟩ := field_inj (isField_of_isHexText hshaped.ownerSig)
        (isField_of_isHexText hshaped'.ownerSig) hrest
      obtain ⟨owner, conditions, sig⟩ := a
      obtain ⟨owner', conditions', sig'⟩ := a'
      simp only at howner hconditions hsig
      rw [howner, hconditions, hsig]
      exact ⟨rfl, hpayload⟩

/-- **A signature binds the time, the attestation and the payload.** -/
theorem signingPreimage_injective (t t' : ℕ) (oa oa' : Option OwnerAttestation)
    (payload payload' : List UInt8) (hoa : ∀ a ∈ oa, a.Shaped) (hoa' : ∀ a ∈ oa', a.Shaped)
    (hpayload : IsGitObject payload) (hpayload' : IsGitObject payload')
    (h : signingPreimage t oa payload = signingPreimage t' oa' payload') :
    t = t' ∧ oa = oa' ∧ payload = payload' := by
  rw [signingPreimage_eq, signingPreimage_eq] at h
  obtain ⟨hdigits, hbound⟩ :=
    field_inj (isField_toDigits t) (isField_toDigits t') (List.append_cancel_left h)
  exact ⟨toDigits_injective hdigits, bound_inj hoa hoa' hpayload hpayload' hbound⟩

/-- One signature of a commit with an attestation. -/
theorem signingPreimage_injective_commit :
    let oa : OwnerAttestation :=
      ⟨hexDigits 64 7, "kind=1&created_at<1800000000".toList, hexDigits 128 9⟩
    let payload := utf8 "tree 4b825dc6".toList
    (1700000000 : ℕ) = 1700000000 ∧ some oa = some oa ∧ payload = payload := by
  intro oa payload
  have hshaped : ∀ a ∈ some oa, a.Shaped := by
    intro a ha
    obtain rfl := Option.some.inj ha
    exact ⟨⟨length_hexDigits _ _, fun _ => isLowercaseHex_of_mem_hexDigits⟩, by decide,
      ⟨length_hexDigits _ _, fun _ => isLowercaseHex_of_mem_hexDigits⟩⟩
  have hpayload : IsGitObject payload := .inl ⟨utf8 "4b825dc6".toList, by decide⟩
  exact signingPreimage_injective 1700000000 1700000000 (some oa) (some oa) payload payload hshaped
    hshaped hpayload hpayload rfl

end Buzz.GitSignNostr
