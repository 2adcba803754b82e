import Buzz.Core.Pairing.Qr
import Buzz.Library.Outcome

/-!
# What an accepted QR code says

The decoder reads the parameters of a query in a loop in which the last one wins, and takes a
version that it cannot read for an absent one. A URI that it accepts may then say more than one
thing. Here is what it is for a URI to say one, and when that holds of what is accepted.

## Main definitions

* `paramValues`: the values of the parameters of a name, in the URI.
* `Said`: every version is 1, every secret is the one of the payload, and the payload is read back.
* `Agreeing`: the parameters can be read and agree.

## Main results

* `decodeQr_ok`: what is checked of an accepted URI.
* `said_iff_agreeing`: an accepted URI says one thing if and only if its parameters agree.
-/

namespace Buzz.Core.Pairing

open Buzz.Library

/-! ### The parameters of a query -/

/-- The name and the value of a parameter; without `=`, the value is empty. -/
def nameValue (pair : List Char) : List Char × List Char :=
  (splitOnce '=' pair).getD (pair, [])

/-- The values of the parameters of a name, in their order. -/
def valuesOf (name : List Char) (pairs : List (List Char)) : List (List Char) :=
  (pairs.map nameValue).filterMap fun p => if p.1 = name then some p.2 else none

/-- The parameters of a URI. -/
def uriPairs (uri : List Char) : List (List Char) :=
  match splitOnce '?' uri with
  | none => []
  | some (_, query) => query.splitOn '&'

/-- The values that a URI has for a name. -/
def paramValues (uri : List Char) (name : List Char) : List (List Char) :=
  valuesOf name (uriPairs uri)

/-- What a URI says of a payload: its versions, its secret, and what a code for the payload says
again. -/
structure Said (crates : QrCrates) (uri : List Char) (p : QrPayload) : Prop where
  version : ∀ value ∈ paramValues uri "v".toList, parseUnsigned (2 ^ 32) value = some 1
  secret_mem : paramValues uri "secret".toList ≠ []
  secret : ∀ value ∈ paramValues uri "secret".toList, value = hexDigits 64 p.sessionSecret.toNat
  again : (utf8 (encodeQr p)).length ≤ 2048 → decodeQr crates (encodeQr p) = .ok p

/-- Every version can be read, and no two versions and no two secrets differ. -/
structure Agreeing (uri : List Char) : Prop where
  readable : ∀ value ∈ paramValues uri "v".toList, (parseUnsigned (2 ^ 32) value).isSome
  version : ∀ value ∈ paramValues uri "v".toList, ∀ value' ∈ paramValues uri "v".toList,
    parseUnsigned (2 ^ 32) value = parseUnsigned (2 ^ 32) value'
  secret : ∀ value ∈ paramValues uri "secret".toList,
    ∀ value' ∈ paramValues uri "secret".toList, value = value'

/-! ### What the loop has read -/

theorem valuesOf_cons (name pair : List Char) (pairs : List (List Char)) :
    valuesOf name (pair :: pairs) =
      if (nameValue pair).1 = name then (nameValue pair).2 :: valuesOf name pairs
      else valuesOf name pairs := by
  rw [valuesOf, List.map_cons, List.filterMap_cons]
  split_ifs <;> rfl

/-- What one parameter does to the secret and to the version. -/
theorem read_cases (params : QrParams) (pair : List Char) :
    (nameValue pair).1 = "secret".toList ∧ (params.read pair).version = params.version ∧
        ((params.read pair).secretHex = some (nameValue pair).2 ∨
          (params.read pair).secretHex = params.secretHex ∧ (nameValue pair).2 = []) ∨
      (nameValue pair).1 = "v".toList ∧ (params.read pair).secretHex = params.secretHex ∧
        ((params.read pair).version = parseUnsigned (2 ^ 32) (nameValue pair).2 ∨
          (params.read pair).version = params.version ∧ (nameValue pair).2 = []) ∨
      (nameValue pair).1 ≠ "secret".toList ∧ (nameValue pair).1 ≠ "v".toList ∧
        (params.read pair).secretHex = params.secretHex ∧
        (params.read pair).version = params.version := by
  unfold QrParams.read nameValue
  rcases splitOnce '=' pair with _ | ⟨name, value⟩
  · by_cases hsecret : pair = "secret".toList
    · exact .inl ⟨hsecret, rfl, .inr ⟨rfl, rfl⟩⟩
    · by_cases hv : pair = "v".toList
      · exact .inr (.inl ⟨hv, rfl, .inr ⟨rfl, rfl⟩⟩)
      · exact .inr (.inr ⟨hsecret, hv, rfl, rfl⟩)
  · simp only [Option.getD_some]
    split_ifs with hsecret hrelay hv
    · exact .inl ⟨hsecret, rfl, .inl rfl⟩
    · refine .inr (.inr ⟨hsecret, ?_, rfl, rfl⟩)
      rw [hrelay]
      decide
    · exact .inr (.inl ⟨hv, rfl, .inl rfl⟩)
    · exact .inr (.inr ⟨hsecret, hv, rfl, rfl⟩)

/-- The secret that has been read is one of the URI. -/
theorem secretHex_foldl {params : QrParams} {pairs : List (List Char)} {secret : List Char}
    (h : (pairs.foldl QrParams.read params).secretHex = some secret) :
    params.secretHex = some secret ∨ secret ∈ valuesOf "secret".toList pairs := by
  induction pairs generalizing params with
  | nil => exact .inl h
  | cons pair pairs ih =>
    rw [List.foldl_cons] at h
    rw [valuesOf_cons]
    rcases ih h with hread | hmem
    · rcases read_cases params pair with ⟨hname, -, hsecret | ⟨hsecret, -⟩⟩ | ⟨-, hsecret, -⟩ |
        ⟨-, -, hsecret, -⟩
      · rw [hsecret] at hread
        rw [if_pos hname, ← Option.some.inj hread]
        exact .inr List.mem_cons_self
      all_goals exact .inl (hsecret.symm.trans hread)
    · right
      split_ifs
      · exact List.mem_cons_of_mem _ hmem
      · exact hmem

/-- Where all versions are one number, that is read, if there is a version. -/
theorem version_foldl {params : QrParams} {pairs : List (List Char)} {n : ℕ}
    (h : ∀ value ∈ valuesOf "v".toList pairs, parseUnsigned (2 ^ 32) value = some n) :
    (pairs.foldl QrParams.read params).version =
      if valuesOf "v".toList pairs = [] then params.version else some n := by
  induction pairs generalizing params with
  | nil => rfl
  | cons pair pairs ih =>
    have hempty : parseUnsigned (2 ^ 32) [] = none := by decide
    rw [valuesOf_cons] at h
    rw [List.foldl_cons, valuesOf_cons]
    rcases read_cases params pair with ⟨hname, hversion, -⟩ | ⟨hname, -, hversion | ⟨-, hnil⟩⟩ |
      ⟨-, hname, -, hversion⟩
    · have hne : (nameValue pair).1 ≠ "v".toList := by
        rw [hname]
        decide
      rw [if_neg hne] at h ⊢
      rw [ih h, hversion]
    · rw [if_pos hname] at h ⊢
      rw [ih fun value hvalue => h value (List.mem_cons_of_mem _ hvalue), hversion,
        h _ List.mem_cons_self, if_neg (List.cons_ne_nil _ _), ite_self]
    · rw [if_pos hname] at h
      have hvalue := h _ List.mem_cons_self
      rw [hnil, hempty] at hvalue
      cases hvalue
    · rw [if_neg hname] at h ⊢
      rw [ih h, hversion]

/-! ### What is accepted -/

variable {crates : QrCrates} {uri : List Char} {p : QrPayload}

/-- What the checks leave of the parameters. -/
theorem check_ok {sourcePubkey : PublicKey} {params : QrParams}
    (h : params.check crates sourcePubkey = .ok p) :
    params.version.getD 1 = 1 ∧ p.version = 1 ∧ p.sourcePubkey = sourcePubkey ∧
      p.relays = params.relays ∧ p.relays ≠ [] ∧ p.sessionSecret ≠ 0 ∧
      (∃ secretStr, params.secretHex = some secretStr ∧ isHex64 secretStr = true ∧
        (decodeHex 64 256 secretStr : Option Bytes32) = some p.sessionSecret) ∧
      params.relays.forM (checkRelay crates) = .ok () := by
  unfold QrParams.check at h
  dsimp only at h
  by_cases hversion : params.version.getD 1 ≠ 1
  · rw [if_pos hversion] at h
    cases h
  · rw [if_neg hversion] at h
    rw [not_not] at hversion
    split at h
    · cases h
    · next secretStr hsecretHex =>
      by_cases hhex : isHex64 secretStr = true
      · rw [hhex, Bool.not_true, if_neg Bool.false_ne_true] at h
        split at h
        · cases h
        · next sessionSecret hsecret =>
          split_ifs at h with hzero hrelays
          cases hforM : params.relays.forM (checkRelay crates) with
          | error e =>
            rw [hforM] at h
            cases h
          | ok =>
            rw [hforM] at h
            cases h
            exact ⟨hversion, hversion, rfl, rfl, hrelays, hzero,
              ⟨secretStr, hsecretHex, hhex, hsecret⟩, rfl⟩
      · rw [Bool.not_eq_true] at hhex
        rw [hhex, Bool.not_false, if_pos rfl] at h
        cases h

/-- The decoder accepts. -/
theorem decodeQr_ok (h : decodeQr crates uri = .ok p) :
    ∃ pubkeyHex query, uri = "nostrpair://".toList ++ (pubkeyHex ++ '?' :: query) ∧
      '?' ∉ pubkeyHex ∧ isHex64 pubkeyHex = true ∧
      crates.publicKeyFromHex pubkeyHex = .ok p.sourcePubkey ∧
      ((query.splitOn '&').foldl QrParams.read ⟨none, [], none⟩).check crates p.sourcePubkey =
        .ok p := by
  unfold decodeQr at h
  split_ifs at h with hlength hstart
  split at h
  · cases h
  · next pubkeyHex query hsplit =>
    split_ifs at h with hhex
    split at h
    · cases h
    · next sourcePubkey hpubkey =>
      obtain ⟨-, -, hkey, -⟩ := check_ok h
      obtain ⟨hnot, heq⟩ := splitOnce_eq_some_iff.mp hsplit
      have hlead : "nostrpair://".toList <+: uri := by simpa using hstart
      obtain ⟨rest, rfl⟩ := hlead
      rw [List.drop_left] at heq
      exact ⟨pubkeyHex, query, by rw [heq], hnot, by simpa using hhex, hkey ▸ hpubkey, hkey ▸ h⟩

theorem uriPairs_eq {pubkeyHex query : List Char} (h : '?' ∉ pubkeyHex) :
    uriPairs ("nostrpair://".toList ++ (pubkeyHex ++ '?' :: query)) = query.splitOn '&' := by
  have hnot : '?' ∉ "nostrpair://".toList ++ pubkeyHex := by
    rw [List.mem_append, not_or]
    exact ⟨by decide, h⟩
  rw [uriPairs, ← List.append_assoc, splitOnce_append_cons hnot]

/-- A text that passes the check is written again from what is read of it. -/
theorem hexDigits_of_isHex64 {text : List Char} {b : BitVec 256} (hhex : isHex64 text = true)
    (h : decodeHex 64 256 text = some b) : hexDigits 64 b.toNat = text := by
  rw [isHex64, Bool.and_eq_true, List.all_eq_true] at hhex
  exact hexDigits_of_decodeHex (by norm_num) (fun c hc => exists_hexDigit (hhex.2 c hc)) h

/-- **An accepted URI says one thing if and only if its parameters can be read and agree.** -/
theorem said_iff_agreeing (crates : QrCrates)
    (hfromHex : ∀ text key, crates.publicKeyFromHex text = .ok key →
      decodeHex 64 256 text = some key)
    (uri : List Char) (p : QrPayload) (h : decodeQr crates uri = .ok p) :
    Said crates uri p ↔ Agreeing uri := by
  obtain ⟨pubkeyHex, query, huri, hnot, hhex, hpubkey, hcheck⟩ := decodeQr_ok h
  obtain ⟨hread, hversion, -, hrelays, hsome, hzero, ⟨secretStr, hsecretHex, hsecretHex64, hsecret⟩,
    hforM⟩ := check_ok hcheck
  have hpairs : uriPairs uri = query.splitOn '&' := by rw [huri, uriPairs_eq hnot]
  have hsecretStr := hexDigits_of_isHex64 hsecretHex64 hsecret
  have hmem : secretStr ∈ paramValues uri "secret".toList := by
    rw [paramValues, hpairs]
    exact (secretHex_foldl hsecretHex).resolve_left nofun
  constructor
  · intro hsaid
    refine ⟨fun value hvalue => ?_, fun value hvalue value' hvalue' => ?_,
      fun value hvalue value' hvalue' => ?_⟩
    · rw [hsaid.version value hvalue]
      rfl
    · rw [hsaid.version value hvalue, hsaid.version value' hvalue']
    · rw [hsaid.secret value hvalue, hsaid.secret value' hvalue']
  · intro hagreeing
    refine ⟨fun value hvalue => ?_, List.ne_nil_of_mem hmem, fun value hvalue => ?_,
      fun hlength => ?_⟩
    · obtain ⟨n, hn⟩ := Option.isSome_iff_exists.mp (hagreeing.readable value hvalue)
      have hall : ∀ value' ∈ valuesOf "v".toList (query.splitOn '&'),
          parseUnsigned (2 ^ 32) value' = some n := fun value' hvalue' => by
        rw [← hn]
        refine hagreeing.version value' ?_ value hvalue
        rwa [paramValues, hpairs]
      have hne : valuesOf "v".toList (query.splitOn '&') ≠ [] := by
        rw [paramValues, hpairs] at hvalue
        exact List.ne_nil_of_mem hvalue
      rw [version_foldl hall, if_neg hne, Option.getD_some] at hread
      rw [hn, hread]
    · rw [hsecretStr]
      exact hagreeing.secret value hvalue secretStr hmem
    · have hvalid : p.Valid crates := by
        refine ⟨?_, hzero, hversion, hsome, hrelays ▸ fun r hr =>
          checkRelay_eq_ok_iff.mp (forM_eq_ok_iff.mp hforM r hr)⟩
        rw [hexDigits_of_isHex64 hhex (hfromHex _ _ hpubkey), hpubkey]
      exact decodeQr_joined hvalid (encodeQr_eq p) hlength

/-- Crates that read every public key and one relay. -/
def relayCrates : QrCrates where
  publicKeyFromHex text :=
    match decodeHex 64 256 text with
    | some key => .ok key
    | none => .error "InvalidPublicKey"
  urlParse text :=
    if text = "wss://a.example".toList then .ok ⟨"wss".toList, some "a.example".toList⟩
    else .error "relative URL without a base"

/-- The URI of a payload, with parameters after it. -/
def uriWith (tail : List Char) : List Char :=
  encodeQr ⟨1, 7, 9, ["wss://a.example"]⟩ ++ tail

theorem decodeHex_of_relayCrates {text : List Char} {key : PublicKey}
    (h : relayCrates.publicKeyFromHex text = .ok key) : decodeHex 64 256 text = some key := by
  unfold relayCrates at h
  dsimp only at h
  split at h
  · next hkey =>
    cases h
    exact hkey
  · cases h

deriving instance DecidableEq for QrPayload

/-- The version once more, and in another spelling. -/
theorem said_iff_agreeing_again :
    Said relayCrates (uriWith "&v=+01".toList) ⟨1, 7, 9, ["wss://a.example"]⟩ ↔
      Agreeing (uriWith "&v=+01".toList) :=
  said_iff_agreeing relayCrates (fun _ _ => decodeHex_of_relayCrates) _ _
    (ok_of_toOption (by decide +kernel))

/-- A URI of version 2 is accepted where a version that cannot be read follows. -/
theorem version_ignored :
    decodeQr relayCrates (uriWith "&v=2&v=x".toList) = .ok ⟨1, 7, 9, ["wss://a.example"]⟩ ∧
      "2".toList ∈ paramValues (uriWith "&v=2&v=x".toList) "v".toList ∧
      ¬ Said relayCrates (uriWith "&v=2&v=x".toList) ⟨1, 7, 9, ["wss://a.example"]⟩ := by
  have hmem : "2".toList ∈ paramValues (uriWith "&v=2&v=x".toList) "v".toList := by decide +kernel
  refine ⟨ok_of_toOption (by decide +kernel), hmem, fun hsaid => ?_⟩
  have htwo : parseUnsigned (2 ^ 32) "2".toList = some 2 := by decide
  have hone := hsaid.version _ hmem
  rw [htwo] at hone
  cases hone

end Buzz.Core.Pairing
