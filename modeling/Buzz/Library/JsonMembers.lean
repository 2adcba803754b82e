import Mathlib.Data.List.Forall2
import Mathlib.Data.List.Nodup
import Buzz.Library.Json
import Buzz.Library.Outcome

/-!
# The values inside a JSON value

The members of an object by their names, the readers of a value's kind, and the values that occur
in a value at any depth.

## Main definitions

* `Members`, and `Json.asU64`, `Json.asStr`, `Json.asBool`, `Json.asArray`, `Json.asObject`.
* `Json.Within`: a value occurs in another.
* `Json.DistinctNames`: no object in a value repeats a name.
* `Json.strict`: the visitor that refuses repeated names.

## Main results

* `Json.distinctNames_arr`, `Json.distinctNames_obj`: the names level by level.
* `Json.strict_eq_ok_iff`: what the visitor accepts.
* `mapM_eq_some_iff`: a list that is read element by element.
-/

namespace Buzz.Library

/-- The members of an object. -/
abbrev Members := List (List Char × Json)

/-- A list is read when each of its elements is. -/
theorem mapM_eq_some_iff {α β : Type} {f : α → Option β} {l : List α} {l' : List β} :
    l.mapM f = some l' ↔ List.Forall₂ (fun a b => f a = some b) l l' := by
  induction l generalizing l' with
  | nil =>
    rw [List.mapM_nil, List.forall₂_nil_left_iff]
    exact Option.some_inj.trans eq_comm
  | cons a l ih =>
    rw [List.mapM_cons, List.forall₂_cons_left_iff]
    simp only [Option.bind_eq_bind, Option.pure_def, Option.bind_eq_some_iff, Option.some_inj, ih]
    constructor
    · rintro ⟨b, hb, bs, hbs, rfl⟩
      exact ⟨b, bs, hb, hbs, rfl⟩
    · rintro ⟨b, bs, hb, hbs, rfl⟩
      exact ⟨b, hb, bs, hbs, rfl⟩

/-- A list that is read has been written, if each element has. -/
theorem eq_map_of_mapM {α β : Type} {f : α → Option β} {g : β → α}
    (h : ∀ a b, f a = some b → a = g b) {l : List α} {l' : List β} (hl : l.mapM f = some l') :
    l = l'.map g := by
  have hall : List.Forall₂ (fun a b => a = g b) l l' := ((mapM_eq_some_iff).mp hl).imp h
  rwa [← List.forall₂_eq_eq_eq, List.forall₂_map_right_iff]

theorem exists_of_mem_mapM_some {α β : Type} {f : α → Option β} {l : List α} {l' : List β}
    (h : l.mapM f = some l') {b : β} (hb : b ∈ l') : ∃ a ∈ l, f a = some b := by
  have hall := (mapM_eq_some_iff).mp h
  clear h
  induction hall with
  | nil => cases hb
  | cons hhead _ ih =>
    obtain rfl | hb := List.mem_cons.mp hb
    · exact ⟨_, List.mem_cons_self, hhead⟩
    · obtain ⟨a, ha, hfa⟩ := ih hb
      exact ⟨a, List.mem_cons_of_mem _ ha, hfa⟩

/-- What is written element by element is read again. -/
theorem mapM_map_of_inverse {α β : Type} {f : α → Option β} {g : β → α}
    (h : ∀ b, f (g b) = some b) (l : List β) : (l.map g).mapM f = some l :=
  (mapM_eq_some_iff).mpr (List.forall₂_map_left_iff.mpr (List.forall₂_same.mpr fun b _ => h b))

namespace Json

/-! ### Kinds of values -/

/-- An unsigned 64-bit number. -/
def asU64 : Json → Option UInt64
  | int (.ofNat n) => if n < 2 ^ 64 then some (.ofNat n) else none
  | _ => none

def asStr : Json → Option (List Char)
  | str s => some s
  | _ => none

def asBool : Json → Option Bool
  | bool b => some b
  | _ => none

def asArray : Json → Option (List Json)
  | arr vs => some vs
  | _ => none

def asObject : Json → Option Members
  | obj ms => some ms
  | _ => none

theorem asU64_eq_some_iff {v : Json} {n : UInt64} : v.asU64 = some n ↔ v = int n.toNat := by
  constructor
  · intro h
    unfold asU64 at h
    split at h
    · obtain ⟨hlt, hn⟩ := Option.ite_none_right_eq_some.mp h
      obtain rfl := Option.some_inj.mp hn
      rw [UInt64.toNat_ofNat_of_lt' hlt]
      rfl
    · cases h
  · rintro rfl
    change (if n.toNat < 2 ^ 64 then some (UInt64.ofNat n.toNat) else none) = some n
    rw [if_pos n.toNat_lt, UInt64.ofNat_toNat]

theorem asStr_eq_some_iff {v : Json} {s : List Char} : v.asStr = some s ↔ v = str s := by
  cases v <;> simp [asStr]

theorem asArray_eq_some_iff {v : Json} {vs : List Json} : v.asArray = some vs ↔ v = arr vs := by
  cases v <;> simp [asArray]

theorem asObject_eq_some_iff {v : Json} {ms : Members} : v.asObject = some ms ↔ v = obj ms := by
  cases v <;> simp [asObject]

/-! ### Occurrences -/

/-- The value `v` occurs in another, at any depth. -/
inductive Within (v : Json) : Json → Prop
  | refl : Within v v
  | elem {vs : List Json} {w : Json} (hw : w ∈ vs) (h : Within v w) : Within v (arr vs)
  | member {ms : Members} {m : List Char × Json} (hm : m ∈ ms) (h : Within v m.2) :
      Within v (obj ms)

theorem Within.of_lookup {ms : Members} {name : List Char} {v : Json}
    (h : ms.lookup name = some v) : Within v (obj ms) := by
  obtain ⟨before, after, rfl, -⟩ := List.lookup_eq_some_iff.mp h
  exact .member (List.mem_append_right _ List.mem_cons_self) .refl

theorem Within.trans {u v w : Json} (huv : Within u v) (hvw : Within v w) : Within u w := by
  induction hvw with
  | refl => exact huv
  | elem hw _ ih => exact .elem hw ih
  | member hm _ ih => exact .member hm ih

/-- No object that occurs in the value repeats a name. -/
def DistinctNames (v : Json) : Prop := ∀ ms, Within (obj ms) v → (ms.map Prod.fst).Nodup

theorem DistinctNames.within {v w : Json} (h : DistinctNames w) (hv : Within v w) :
    DistinctNames v :=
  fun ms hms => h ms (hms.trans hv)

/-- A value that is neither an array nor an object has no names. -/
theorem distinctNames_scalar {v : Json} (harr : ∀ vs, v ≠ arr vs) (hobj : ∀ ms, v ≠ obj ms) :
    DistinctNames v := by
  intro ms hms
  cases hms with
  | refl => exact absurd rfl (hobj ms)
  | elem => exact absurd rfl (harr _)
  | member => exact absurd rfl (hobj _)

theorem distinctNames_arr {vs : List Json} :
    DistinctNames (arr vs) ↔ ∀ v ∈ vs, DistinctNames v := by
  constructor
  · exact fun h v hv => h.within (.elem hv .refl)
  · intro h ms hms
    cases hms with
    | elem hw hms => exact h _ hw ms hms

theorem distinctNames_obj {ms : Members} :
    DistinctNames (obj ms) ↔ (ms.map Prod.fst).Nodup ∧ ∀ m ∈ ms, DistinctNames m.2 := by
  constructor
  · exact fun h => ⟨h ms .refl, fun m hm => h.within (.member hm .refl)⟩
  · rintro ⟨hnodup, h⟩ ms' hms'
    cases hms' with
    | refl => exact hnodup
    | member hm hms' => exact h _ hm ms' hms'

/-! ### Visitors that refuse repeated names -/

variable {ε : Type}

mutual

/-- The value itself, unless an object in it repeats a name. -/
def strict (repeated : List Char → ε) : Json → Except ε Json
  | arr vs => do return arr (← strictElems repeated vs)
  | obj ms => do return obj (← strictMembers repeated [] ms)
  | v => .ok v

/-- The same for the elements of an array. -/
def strictElems (repeated : List Char → ε) : List Json → Except ε (List Json)
  | [] => .ok []
  | v :: vs => do return (← strict repeated v) :: (← strictElems repeated vs)

/-- The same for the members of an object, after those of the names that were seen. -/
def strictMembers (repeated : List Char → ε) (seen : List (List Char)) :
    Members → Except ε Members
  | [] => .ok []
  | m :: ms => do
    ensure (m.1 ∉ seen) (repeated m.1)
    return (m.1, ← strict repeated m.2) :: (← strictMembers repeated (m.1 :: seen) ms)

end

variable {repeated : List Char → ε}

theorem strict_scalar {v w : Json} (harr : ∀ vs, v ≠ arr vs) (hobj : ∀ ms, v ≠ obj ms)
    (h : strict repeated v = .ok v) : strict repeated v = .ok w ↔ w = v ∧ v.DistinctNames := by
  rw [h, Except.ok.injEq]
  exact ⟨fun h => ⟨h.symm, distinctNames_scalar harr hobj⟩, fun h => h.1.symm⟩

mutual

/-- The visitor returns the value, if no object in it repeats a name. -/
theorem strict_eq_ok_iff : ∀ {v w : Json}, strict repeated v = .ok w ↔ w = v ∧ v.DistinctNames
  | arr vs, w => by
    rw [strict, bind_eq_ok, distinctNames_arr]
    constructor
    · rintro ⟨ws, hws, hw⟩
      obtain ⟨rfl, hall⟩ := strictElems_eq_ok_iff.mp hws
      exact ⟨(Except.ok.inj hw).symm, hall⟩
    · rintro ⟨rfl, hall⟩
      exact ⟨vs, strictElems_eq_ok_iff.mpr ⟨rfl, hall⟩, rfl⟩
  | obj ms, w => by
    rw [strict, bind_eq_ok, distinctNames_obj]
    constructor
    · rintro ⟨ms', hms, hw⟩
      obtain ⟨rfl, hnodup, hall⟩ := strictMembers_eq_ok_iff.mp hms
      exact ⟨(Except.ok.inj hw).symm, hnodup, fun m hm => (hall m hm).2⟩
    · rintro ⟨rfl, hnodup, hall⟩
      exact ⟨ms, strictMembers_eq_ok_iff.mpr
        ⟨rfl, hnodup, fun m hm => ⟨List.not_mem_nil, hall m hm⟩⟩, rfl⟩
  | null, w => strict_scalar (by rintro _ ⟨⟩) (by rintro _ ⟨⟩) rfl
  | bool _, w => strict_scalar (by rintro _ ⟨⟩) (by rintro _ ⟨⟩) rfl
  | int _, w => strict_scalar (by rintro _ ⟨⟩) (by rintro _ ⟨⟩) rfl
  | float _, w => strict_scalar (by rintro _ ⟨⟩) (by rintro _ ⟨⟩) rfl
  | str _, w => strict_scalar (by rintro _ ⟨⟩) (by rintro _ ⟨⟩) rfl

theorem strictElems_eq_ok_iff : ∀ {vs ws : List Json},
    strictElems repeated vs = .ok ws ↔ ws = vs ∧ ∀ v ∈ vs, v.DistinctNames
  | [], ws => by
    rw [strictElems, Except.ok.injEq]
    exact ⟨fun h => ⟨h.symm, fun v hv => absurd hv List.not_mem_nil⟩, fun h => h.1.symm⟩
  | v :: vs, ws => by
    rw [strictElems, bind_eq_ok, List.forall_mem_cons]
    constructor
    · rintro ⟨v', hv, hrest⟩
      obtain ⟨vs', hvs, hws⟩ := bind_eq_ok.mp hrest
      obtain ⟨rfl, hdistinct⟩ := strict_eq_ok_iff.mp hv
      obtain ⟨rfl, hall⟩ := strictElems_eq_ok_iff.mp hvs
      exact ⟨(Except.ok.inj hws).symm, hdistinct, hall⟩
    · rintro ⟨rfl, hdistinct, hall⟩
      exact ⟨v, strict_eq_ok_iff.mpr ⟨rfl, hdistinct⟩,
        bind_eq_ok.mpr ⟨vs, strictElems_eq_ok_iff.mpr ⟨rfl, hall⟩, rfl⟩⟩

theorem strictMembers_eq_ok_iff : ∀ {seen : List (List Char)} {ms ms' : Members},
    strictMembers repeated seen ms = .ok ms' ↔
      ms' = ms ∧ (ms.map Prod.fst).Nodup ∧ ∀ m ∈ ms, m.1 ∉ seen ∧ m.2.DistinctNames
  | seen, [], ms' => by
    rw [strictMembers, Except.ok.injEq]
    exact ⟨fun h => ⟨h.symm, List.nodup_nil, fun m hm => absurd hm List.not_mem_nil⟩,
      fun h => h.1.symm⟩
  | seen, m :: ms, ms' => by
    rw [strictMembers, List.map_cons, List.nodup_cons, List.forall_mem_cons]
    constructor
    · intro h
      obtain ⟨⟨⟩, hseen, hrest⟩ := bind_eq_ok.mp h
      obtain ⟨v, hv, hrest⟩ := bind_eq_ok.mp hrest
      obtain ⟨ms'', hms, hws⟩ := bind_eq_ok.mp hrest
      obtain ⟨rfl, hdistinct⟩ := strict_eq_ok_iff.mp hv
      obtain ⟨rfl, hnodup, hall⟩ := strictMembers_eq_ok_iff.mp hms
      refine ⟨(Except.ok.inj hws).symm, ⟨fun hmem => ?_, hnodup⟩,
        ⟨ensure_eq_ok.mp hseen, hdistinct⟩, fun m' hm' => ⟨fun hmem => ?_, (hall m' hm').2⟩⟩
      · obtain ⟨m', hm', hname⟩ := List.mem_map.mp hmem
        exact (hall m' hm').1 (hname ▸ List.mem_cons_self)
      · exact (hall m' hm').1 (List.mem_cons_of_mem _ hmem)
    · rintro ⟨rfl, ⟨hnew, hnodup⟩, ⟨hseen, hdistinct⟩, hall⟩
      have hmore : strictMembers repeated (m.1 :: seen) ms = .ok ms := by
        refine strictMembers_eq_ok_iff.mpr
          ⟨rfl, hnodup, fun m' hm' => ⟨fun hmem => ?_, (hall m' hm').2⟩⟩
        rcases List.mem_cons.mp hmem with hname | hmem
        · exact hnew (hname ▸ List.mem_map_of_mem hm')
        · exact (hall m' hm').1 hmem
      exact bind_eq_ok.mpr ⟨(), ensure_eq_ok.mpr hseen, bind_eq_ok.mpr
        ⟨m.2, strict_eq_ok_iff.mpr ⟨rfl, hdistinct⟩, bind_eq_ok.mpr ⟨ms, hmore, rfl⟩⟩⟩

end

end Json

end Buzz.Library
