import Buzz.Library.HashMap
import Buzz.Library.Text

/-!
# Manual-unread overrides

The device of the design note on manual-unread marks, candidate B: beside the frontier of a context,
two counters (set and clear) and a baseline, which are merged by the maximum. This is
`docs/formal/nip-rs-unread/model.py`.

A blob is the items of a dictionary, in their order. The override of a context is under its keys with
the prefixes `ov_s:`, `ov_c:` and `ov_b:`, so a context whose name begins with `ov_` or `esc:` has an
escaped frontier key.

## Main definitions

* `RegB`, `mergeRegB`, `overrideSetB`, `compactB`.
* `DeviceB` and its operations, `Blob`.

## Main results

* `DeviceB.publishBlob_nodup`: a blob has every key once.
* `DeviceB.Sound.effectiveFrontier_receiveMerge`, `DeviceB.Sound.lookup_receiveMerge`: what is left
  of a blob that another device has published.
-/

namespace Buzz.NipRsUnread

open Buzz.Library

/-! ### Keys -/

/-- The text of a context, or of a key on the wire. -/
abbrev Key := List Char

def escapePrefix : Key := "esc:".toList

def reservedStem : Key := "ov_".toList

def needsEscape (rawKey : Key) : Bool :=
  reservedStem.isPrefixOf rawKey || escapePrefix.isPrefixOf rawKey

def escapeContextKey (rawKey : Key) : Key :=
  if needsEscape rawKey then escapePrefix ++ rawKey else rawKey

def unescapeContextKey (wireKey : Key) : Key :=
  if escapePrefix.isPrefixOf wireKey then wireKey.drop escapePrefix.length else wireKey

theorem unescape_escape (k : Key) : unescapeContextKey (escapeContextKey k) = k := by
  rw [escapeContextKey]
  split_ifs with h
  · rfl
  · exact if_neg fun hescape => h (Bool.or_eq_true_iff.mpr (.inr hescape))

/-- A frontier key is not the key of an override. -/
theorem reservedStem_not_initial (k : Key) :
    reservedStem.isPrefixOf (escapeContextKey k) = false := by
  rw [escapeContextKey]
  split_ifs with h
  · rfl
  · exact Bool.eq_false_iff.mpr fun hstem => h (Bool.or_eq_true_iff.mpr (.inl hstem))

/-! ### Registers -/

/-- Which operation wins a tie. -/
inductive Op
  | set
  | clear
  deriving DecidableEq

structure RegB where
  s : ℤ
  c : ℤ
  b : ℤ
  deriving DecidableEq

/-- `RegB()`. -/
def RegB.zero : RegB := ⟨0, 0, 0⟩

def mergeRegB : Option RegB → Option RegB → Option RegB
  | none, b => b
  | a, none => a
  | some a, some b => some ⟨max a.s b.s, max a.c b.c, max a.b b.b⟩

def overrideSetB (reg : Option RegB) (frontier : ℤ) (tiePolicy : Op) : Bool :=
  match reg with
  | none => false
  | some reg =>
    if reg.b < frontier ∧ 0 < reg.s then false
    else if reg.c < reg.s then true
    else if reg.s = reg.c ∧ 0 < reg.s then tiePolicy = .set
    else false

def compactB (reg : RegB) (frontier : ℤ) (tiePolicy : Op) : Option RegB :=
  if reg.s = 0 ∧ reg.c = 0 then none
  else if overrideSetB (some reg) frontier tiePolicy then some reg
  else some ⟨0, max reg.s reg.c, 0⟩

/-- With clear wins, a register is live if its set counter is ahead and the frontier has not passed
its baseline. -/
theorem overrideSetB_clear_iff {reg : RegB} (hc : 0 ≤ reg.c) {frontier : ℤ} :
    overrideSetB (some reg) frontier .clear = true ↔ reg.c < reg.s ∧ frontier ≤ reg.b := by
  rw [overrideSetB]
  split_ifs with hpassed hahead htie
  · exact iff_of_false nofun fun h => by omega
  · exact iff_of_true rfl (by omega)
  · exact iff_of_false nofun fun h => hahead h.1
  · exact iff_of_false nofun fun h => hahead h.1

/-! ### Devices -/

structure DeviceB where
  clientId : Key
  isLegacy : Bool
  frontier : HashMap Key ℤ
  overrides : HashMap Key RegB

/-- A serialized read state: the items of its contexts. -/
structure Blob where
  clientId : Key
  contexts : List (Key × ℤ)

/-- A reader of the items of a blob: the frontier so far, and the incoming overrides. -/
abbrev Reading := HashMap Key ℤ × HashMap Key RegB

/-- Read one item of a blob. -/
def readItem (acc : Reading) (item : Key × ℤ) : Reading :=
  let incoming ctx := (acc.2.lookup ctx).getD .zero
  if "ov_s:".toList.isPrefixOf item.1 then
    (acc.1, acc.2.insert (item.1.drop 5) { incoming (item.1.drop 5) with s := item.2 })
  else if "ov_c:".toList.isPrefixOf item.1 then
    (acc.1, acc.2.insert (item.1.drop 5) { incoming (item.1.drop 5) with c := item.2 })
  else if "ov_b:".toList.isPrefixOf item.1 then
    (acc.1, acc.2.insert (item.1.drop 5) { incoming (item.1.drop 5) with b := item.2 })
  else
    (acc.1.insert (unescapeContextKey item.1)
      (max ((acc.1.lookup (unescapeContextKey item.1)).getD 0) item.2), acc.2)

/-- The overrides that a blob carries. -/
def Blob.incomingOverrides (blob : Blob) : HashMap Key RegB :=
  (blob.contexts.foldl readItem (∅, ∅)).2

namespace DeviceB

/-- A device of an upgraded client. -/
def new (clientId : Key) : DeviceB := ⟨clientId, false, ∅, ∅⟩

def effectiveFrontier (d : DeviceB) (ctx : Key) : ℤ := (d.frontier.lookup ctx).getD 0

def bump (s c : ℤ) : ℤ := max s c + 1

def overrideIsSet (d : DeviceB) (ctx : Key) (tiePolicy : Op) : Bool :=
  overrideSetB (d.overrides.lookup ctx) (d.effectiveFrontier ctx) tiePolicy

def doMarkUnread (d : DeviceB) (ctx : Key) : DeviceB :=
  if d.isLegacy then d
  else
    let cur := (d.overrides.lookup ctx).getD .zero
    { d with overrides :=
        d.overrides.insert ctx ⟨bump cur.s cur.c, cur.c, d.effectiveFrontier ctx⟩ }

def doAdvanceFrontier (d : DeviceB) (ctx : Key) (ts : ℤ) : DeviceB :=
  { d with frontier := d.frontier.insert ctx (max ((d.frontier.lookup ctx).getD 0) ts) }

def doMarkRead (d : DeviceB) (ctx : Key) (frontierTs : ℤ) : DeviceB :=
  let d := d.doAdvanceFrontier ctx frontierTs
  if d.isLegacy then d
  else
    let cur := (d.overrides.lookup ctx).getD .zero
    { d with overrides := d.overrides.insert ctx { cur with c := bump cur.s cur.c } }

def doCompact (d : DeviceB) (ctx : Key) (tiePolicy : Op) : DeviceB :=
  match d.overrides.lookup ctx with
  | none => d
  | some reg =>
    match compactB reg (d.effectiveFrontier ctx) tiePolicy with
    | none => { d with overrides := d.overrides.erase ctx }
    | some result => { d with overrides := d.overrides.insert ctx result }

/-- The form in which an override is published: whether it is live, and its register. -/
def canonicalizeForPublish (d : DeviceB) (ctx : Key) (tiePolicy : Op) : Bool × Option RegB :=
  match d.overrides.lookup ctx with
  | none => (false, none)
  | some reg =>
    match compactB reg (d.effectiveFrontier ctx) tiePolicy with
    | none => (false, none)
    | some canonical =>
      (overrideSetB (some canonical) (d.effectiveFrontier ctx) tiePolicy, some canonical)

/-- The items of an override: three if it is live, and one if it is a tombstone. -/
def overrideItems (ctx : Key) : Bool × Option RegB → List (Key × ℤ)
  | (_, none) => []
  | (true, some reg) =>
    [("ov_s:".toList ++ ctx, reg.s), ("ov_c:".toList ++ ctx, reg.c), ("ov_b:".toList ++ ctx, reg.b)]
  | (false, some reg) => [("ov_c:".toList ++ ctx, reg.c)]

def publishBlob (d : DeviceB) (tiePolicy : Op) : Blob where
  clientId := d.clientId
  contexts := d.frontier.entries.map (fun e => (escapeContextKey e.1, e.2)) ++
    if d.isLegacy then []
    else d.overrides.keys.flatMap fun k => overrideItems k (d.canonicalizeForPublish k tiePolicy)

/-- Merge one incoming override. -/
def mergeOverride (overrides : HashMap Key RegB) (ctx : Key) (reg : RegB) : HashMap Key RegB :=
  match mergeRegB (overrides.lookup ctx) (some reg) with
  | none => overrides
  | some merged => overrides.insert ctx merged

def receiveMerge (d : DeviceB) (blob : Blob) : DeviceB :=
  let (frontier, incoming) := blob.contexts.foldl readItem (d.frontier, ∅)
  { d with
    frontier := frontier
    overrides :=
      if d.isLegacy then d.overrides
      else incoming.entries.foldl (fun overrides e => mergeOverride overrides e.1 e.2) d.overrides }

end DeviceB

/-! ### What is read of a published blob -/

theorem mem_overrideItems {ctx : Key} {canonical : Bool × Option RegB} {item : Key × ℤ}
    (h : item ∈ DeviceB.overrideItems ctx canonical) :
    ∃ x ∈ ['s', 'c', 'b'], item.1 = ['o', 'v', '_', x, ':'] ++ ctx := by
  obtain ⟨live, reg⟩ := canonical
  cases reg with
  | none => cases live <;> cases h
  | some reg =>
    cases live with
    | true =>
      simp only [DeviceB.overrideItems, List.mem_cons, List.not_mem_nil, or_false] at h
      rcases h with rfl | rfl | rfl
      · exact ⟨'s', by simp, rfl⟩
      · exact ⟨'c', by simp, rfl⟩
      · exact ⟨'b', by simp, rfl⟩
    | false =>
      obtain rfl := List.mem_singleton.mp h
      exact ⟨'c', by simp, rfl⟩

theorem nodup_overrideItems (ctx : Key) (canonical : Bool × Option RegB) :
    ((DeviceB.overrideItems ctx canonical).map Prod.fst).Nodup := by
  obtain ⟨live, reg⟩ := canonical
  cases reg with
  | none => cases live <;> exact List.nodup_nil
  | some reg =>
    cases live with
    | true => simp [DeviceB.overrideItems]
    | false => exact List.nodup_singleton _

/-- A blob has every key once, so that its items are those of a dictionary. -/
theorem DeviceB.publishBlob_nodup (d : DeviceB) (tiePolicy : Op) :
    ((d.publishBlob tiePolicy).contexts.map Prod.fst).Nodup := by
  have hfrontier : ((d.frontier.entries.map fun e => (escapeContextKey e.1, e.2)).map
      Prod.fst).Nodup := by
    have hmap : (d.frontier.entries.map fun e => (escapeContextKey e.1, e.2)).map Prod.fst =
        d.frontier.keys.map escapeContextKey := by
      rw [List.map_map, AList.keys, List.keys, List.map_map]
      rfl
    rw [hmap]
    exact d.frontier.keys_nodup.map (Function.LeftInverse.injective unescape_escape)
  rw [publishBlob]
  cases d.isLegacy with
  | true => simpa using hfrontier
  | false =>
    simp only [Bool.false_eq_true, if_false, List.map_append, List.map_flatMap]
    refine List.Nodup.append hfrontier (List.nodup_flatMap.mpr
      ⟨fun k _ => nodup_overrideItems k _, d.overrides.keys_nodup.imp fun hne => ?_⟩) ?_
    · refine List.disjoint_left.mpr fun key hkey hkey' => ?_
      obtain ⟨item, hitem, rfl⟩ := List.mem_map.mp hkey
      obtain ⟨item', hitem', hsame⟩ := List.mem_map.mp hkey'
      obtain ⟨x, -, hx⟩ := mem_overrideItems hitem
      obtain ⟨y, -, hy⟩ := mem_overrideItems hitem'
      have hdrop := congrArg (List.drop 5) (hx.symm.trans (hsame.symm.trans hy))
      exact hne hdrop
    · rw [List.disjoint_left]
      intro key hkey hkey'
      obtain ⟨item, hitem, rfl⟩ := List.mem_map.mp hkey
      obtain ⟨e, -, rfl⟩ := List.mem_map.mp hitem
      obtain ⟨k, -, hmem⟩ := List.mem_flatMap.mp hkey'
      obtain ⟨item', hitem', hsame⟩ := List.mem_map.mp hmem
      obtain ⟨x, -, hx⟩ := mem_overrideItems hitem'
      have hescaped : escapeContextKey e.1 = ['o', 'v', '_', x, ':'] ++ k := hsame.symm.trans hx
      have hstem := reservedStem_not_initial e.1
      rw [hescaped] at hstem
      cases hstem

/-- A frontier key is read as the frontier of its context. -/
theorem readItem_escape (acc : Reading) (ctx : Key) (v : ℤ) :
    readItem acc (escapeContextKey ctx, v) =
      (acc.1.insert ctx (max ((acc.1.lookup ctx).getD 0) v), acc.2) := by
  have hnot : ∀ key : Key, reservedStem <+: key →
      ¬key.isPrefixOf (escapeContextKey ctx) = true := by
    intro key hstem hkey
    have hinitial := List.isPrefixOf_iff_prefix.mpr
      (hstem.trans (List.isPrefixOf_iff_prefix.mp hkey))
    rw [reservedStem_not_initial] at hinitial
    cases hinitial
  have hs := hnot "ov_s:".toList ⟨"s:".toList, rfl⟩
  have hc := hnot "ov_c:".toList ⟨"c:".toList, rfl⟩
  have hb := hnot "ov_b:".toList ⟨"b:".toList, rfl⟩
  simp only [readItem, if_neg hs, if_neg hc, if_neg hb]
  rw [unescape_escape]

theorem readItem_set (acc : Reading) (ctx : Key) (v : ℤ) :
    readItem acc ("ov_s:".toList ++ ctx, v) =
      (acc.1, acc.2.insert ctx { (acc.2.lookup ctx).getD .zero with s := v }) := rfl

theorem readItem_clear (acc : Reading) (ctx : Key) (v : ℤ) :
    readItem acc ("ov_c:".toList ++ ctx, v) =
      (acc.1, acc.2.insert ctx { (acc.2.lookup ctx).getD .zero with c := v }) := rfl

theorem readItem_baseline (acc : Reading) (ctx : Key) (v : ℤ) :
    readItem acc ("ov_b:".toList ++ ctx, v) =
      (acc.1, acc.2.insert ctx { (acc.2.lookup ctx).getD .zero with b := v }) := rfl

/-- The frontier part of a blob is merged by the maximum. -/
theorem foldl_readItem_frontier (l : List (Σ _ : Key, ℤ)) (hl : l.NodupKeys) (acc : Reading)
    (hacc : ∀ ctx, 0 ≤ (acc.1.lookup ctx).getD 0) :
    ∃ frontier, (l.map fun e => (escapeContextKey e.1, e.2)).foldl readItem acc =
        (frontier, acc.2) ∧
      ∀ ctx, (frontier.lookup ctx).getD 0 =
        max ((acc.1.lookup ctx).getD 0) ((l.dlookup ctx).getD 0) := by
  induction l generalizing acc with
  | nil => exact ⟨acc.1, rfl, fun ctx => (max_eq_left (hacc ctx)).symm⟩
  | cons e l ih =>
    obtain ⟨k, v⟩ := e
    obtain ⟨hnot, hl⟩ := List.nodupKeys_cons.mp hl
    have hacc' : ∀ ctx, 0 ≤ ((acc.1.insert k (max ((acc.1.lookup k).getD 0) v)).lookup ctx).getD
        0 := by
      intro ctx
      rw [HashMap.lookup_insert_eq]
      split_ifs
      · exact (hacc k).trans (le_max_left _ v)
      · exact hacc ctx
    obtain ⟨frontier, hfold, hfrontier⟩ := ih hl
      (acc.1.insert k (max ((acc.1.lookup k).getD 0) v), acc.2) hacc'
    refine ⟨frontier, ?_, fun ctx => ?_⟩
    · rw [List.map_cons, List.foldl_cons, readItem_escape, hfold]
    · rw [hfrontier ctx, HashMap.lookup_insert_eq]
      by_cases hk : ctx = k
      · subst hk
        have hnone : l.dlookup ctx = none := List.dlookup_eq_none.mpr hnot
        rw [if_pos rfl, List.dlookup_cons_eq, hnone]
        exact max_eq_left ((hacc ctx).trans (le_max_left _ v))
      · rw [if_neg hk, List.dlookup_cons_ne _ _ hk]

/-- A register that is published as a tombstone is its clear counter alone. -/
def Canonical : Bool × Option RegB → Prop
  | (false, some reg) => reg.s = 0 ∧ reg.b = 0
  | _ => True

/-- The items of an override are read as its register. -/
theorem foldl_readItem_override {ctx : Key} {canonical : Bool × Option RegB}
    (hcanonical : Canonical canonical) {acc : Reading} (hnew : acc.2.lookup ctx = none) :
    ∃ incoming, (DeviceB.overrideItems ctx canonical).foldl readItem acc = (acc.1, incoming) ∧
      ∀ k, incoming.lookup k = if k = ctx then canonical.2 else acc.2.lookup k := by
  obtain ⟨live, reg⟩ := canonical
  cases reg with
  | none =>
    refine ⟨acc.2, by cases live <;> rfl, fun k => ?_⟩
    split_ifs with hk
    · exact hk ▸ hnew
    · rfl
  | some reg =>
    cases live with
    | true =>
      rw [DeviceB.overrideItems, List.foldl_cons, List.foldl_cons, List.foldl_cons, List.foldl_nil,
        readItem_set, readItem_clear, readItem_baseline]
      refine ⟨_, rfl, fun k => ?_⟩
      simp only [HashMap.lookup_insert_eq, hnew, if_true, Option.getD_some]
      split_ifs <;> rfl
    | false =>
      obtain ⟨hs, hb⟩ := hcanonical
      rw [DeviceB.overrideItems, List.foldl_cons, List.foldl_nil, readItem_clear]
      refine ⟨_, rfl, fun k => ?_⟩
      have hreg : reg = ⟨0, reg.c, 0⟩ := by
        cases reg
        rw [RegB.mk.injEq]
        exact ⟨hs, rfl, hb⟩
      rw [HashMap.lookup_insert_eq, hnew, hreg]
      rfl

/-- The override part of a blob is read as the registers that it was made of. -/
theorem foldl_readItem_overrides {canonical : Key → Bool × Option RegB}
    (hcanonical : ∀ k, Canonical (canonical k)) (l : List Key) (hl : l.Nodup) (acc : Reading)
    (hnew : ∀ k ∈ l, acc.2.lookup k = none) :
    ∃ incoming, (l.flatMap fun k => DeviceB.overrideItems k (canonical k)).foldl readItem acc =
        (acc.1, incoming) ∧
      ∀ k, incoming.lookup k = if k ∈ l then (canonical k).2 else acc.2.lookup k := by
  induction l generalizing acc with
  | nil => exact ⟨acc.2, rfl, fun k => (if_neg List.not_mem_nil).symm⟩
  | cons ctx l ih =>
    obtain ⟨hnot, hl⟩ := List.nodup_cons.mp hl
    obtain ⟨first, hfirst, hlookup⟩ :=
      foldl_readItem_override (hcanonical ctx) (hnew ctx List.mem_cons_self)
    have hne : ∀ k ∈ l, k ≠ ctx := fun k hk heq => hnot (heq ▸ hk)
    obtain ⟨incoming, hincoming, hlookup'⟩ := ih hl (acc.1, first) fun k hk => by
      rw [hlookup k, if_neg (hne k hk)]
      exact hnew k (List.mem_cons_of_mem ctx hk)
    refine ⟨incoming, ?_, fun k => ?_⟩
    · rw [List.flatMap_cons, List.foldl_append, hfirst, hincoming]
    · rw [hlookup' k, hlookup k]
      by_cases hk : k ∈ l
      · rw [if_pos hk, if_pos (List.mem_cons_of_mem ctx hk)]
      · rw [if_neg hk]
        by_cases hctx : k = ctx
        · rw [if_pos hctx, if_pos (hctx ▸ List.mem_cons_self), hctx]
        · rw [if_neg hctx, if_neg fun hmem => hk ((List.mem_cons.mp hmem).resolve_left hctx)]

theorem mergeRegB_none (a : Option RegB) : mergeRegB a none = a := by
  cases a <;> rfl

theorem lookup_mergeOverride (overrides : HashMap Key RegB) (ctx : Key) (reg : RegB) (k : Key) :
    (DeviceB.mergeOverride overrides ctx reg).lookup k =
      if k = ctx then mergeRegB (overrides.lookup ctx) (some reg) else overrides.lookup k := by
  rw [DeviceB.mergeOverride]
  cases overrides.lookup ctx with
  | none => exact HashMap.lookup_insert_eq ..
  | some cur => exact HashMap.lookup_insert_eq ..

/-- The incoming overrides are merged one by one. -/
theorem lookup_foldl_mergeOverride (l : List (Σ _ : Key, RegB)) (hl : l.NodupKeys)
    (overrides : HashMap Key RegB) (ctx : Key) :
    (l.foldl (fun overrides e => DeviceB.mergeOverride overrides e.1 e.2) overrides).lookup ctx =
      mergeRegB (overrides.lookup ctx) (l.dlookup ctx) := by
  induction l generalizing overrides with
  | nil => exact (mergeRegB_none _).symm
  | cons e l ih =>
    obtain ⟨k, reg⟩ := e
    obtain ⟨hnot, hl⟩ := List.nodupKeys_cons.mp hl
    rw [List.foldl_cons, ih hl, lookup_mergeOverride]
    by_cases hk : ctx = k
    · subst hk
      have hnone : l.dlookup ctx = none := List.dlookup_eq_none.mpr hnot
      rw [if_pos rfl, List.dlookup_cons_eq, hnone, mergeRegB_none]
    · rw [if_neg hk, List.dlookup_cons_ne _ _ hk]

namespace DeviceB

/-- The counters and baselines of a device are not negative, and no baseline is above the
frontier. -/
structure Sound (d : DeviceB) : Prop where
  frontier : ∀ ctx, 0 ≤ d.effectiveFrontier ctx
  override : ∀ ctx reg, d.overrides.lookup ctx = some reg →
    0 ≤ reg.s ∧ 0 ≤ reg.c ∧ 0 ≤ reg.b ∧ reg.b ≤ d.effectiveFrontier ctx

/-- The register under which a context is published. -/
def published (d : DeviceB) (ctx : Key) (tiePolicy : Op) : Option RegB :=
  if d.isLegacy then none else (d.canonicalizeForPublish ctx tiePolicy).2

variable {d e : DeviceB}

theorem Sound.canonical (h : d.Sound) (ctx : Key) (tiePolicy : Op) :
    Canonical (d.canonicalizeForPublish ctx tiePolicy) := by
  rw [canonicalizeForPublish]
  cases hreg : d.overrides.lookup ctx with
  | none => trivial
  | some reg =>
    obtain ⟨-, hc, -, -⟩ := h.override ctx reg hreg
    simp only [compactB]
    by_cases hvirgin : reg.s = 0 ∧ reg.c = 0
    · rw [if_pos hvirgin]
      trivial
    rw [if_neg hvirgin]
    cases hlive : overrideSetB (some reg) (d.effectiveFrontier ctx) tiePolicy with
    | true =>
      simp only [if_true, hlive]
      trivial
    | false =>
      have hdead : overrideSetB (some ⟨0, max reg.s reg.c, 0⟩) (d.effectiveFrontier ctx)
          tiePolicy = false := by
        have hmax : ¬max reg.s reg.c < 0 := not_lt.mpr (hc.trans (le_max_right _ _))
        simp [overrideSetB, hmax]
      simp only [Bool.false_eq_true, if_false, hdead]
      exact ⟨rfl, rfl⟩

/-- A context without an override is not published. -/
theorem published_eq_none {ctx : Key} (hctx : ctx ∉ d.overrides.keys) (tiePolicy : Op) :
    (d.canonicalizeForPublish ctx tiePolicy).2 = none := by
  rw [HashMap.mem_keys_iff, Bool.not_eq_true, Option.isSome_eq_false_iff, Option.isNone_iff_eq_none]
    at hctx
  rw [canonicalizeForPublish, hctx]

/-- What a reader finds in the blob of a device. -/
theorem Sound.foldl_readItem (h : e.Sound) (tiePolicy : Op) (frontier : HashMap Key ℤ)
    (hfrontier : ∀ ctx, 0 ≤ (frontier.lookup ctx).getD 0) :
    ∃ frontier' incoming, (e.publishBlob tiePolicy).contexts.foldl readItem (frontier, ∅) =
        (frontier', incoming) ∧
      (∀ ctx, (frontier'.lookup ctx).getD 0 =
        max ((frontier.lookup ctx).getD 0) (e.effectiveFrontier ctx)) ∧
      ∀ ctx, incoming.lookup ctx = e.published ctx tiePolicy := by
  obtain ⟨frontier', hfold, hmax⟩ :=
    foldl_readItem_frontier e.frontier.entries e.frontier.nodupKeys (frontier, ∅) hfrontier
  rw [publishBlob, List.foldl_append, hfold]
  cases hlegacy : e.isLegacy with
  | true =>
    refine ⟨frontier', ∅, rfl, hmax, fun ctx => ?_⟩
    rw [published, hlegacy]
    rfl
  | false =>
    obtain ⟨incoming, hincoming, hlookup⟩ := foldl_readItem_overrides
      (fun k => h.canonical k tiePolicy) e.overrides.keys e.overrides.keys_nodup (frontier', ∅)
        fun _ _ => rfl
    refine ⟨frontier', incoming, hincoming, hmax, fun ctx => ?_⟩
    simp only [hlookup ctx, published, hlegacy, Bool.false_eq_true, if_false]
    split_ifs with hctx
    · rfl
    · exact (published_eq_none hctx tiePolicy).symm

/-- A blob brings the frontier of its publisher. -/
theorem Sound.effectiveFrontier_receiveMerge (h : d.Sound) (he : e.Sound) (tiePolicy : Op)
    (ctx : Key) : (d.receiveMerge (e.publishBlob tiePolicy)).effectiveFrontier ctx =
      max (d.effectiveFrontier ctx) (e.effectiveFrontier ctx) := by
  obtain ⟨frontier', incoming, hread, hfrontier, -⟩ :=
    he.foldl_readItem tiePolicy d.frontier h.frontier
  rw [receiveMerge, hread]
  exact hfrontier ctx

/-- A blob brings the published registers. -/
theorem Sound.lookup_receiveMerge (h : d.Sound) (he : e.Sound) (tiePolicy : Op)
    (hupgraded : d.isLegacy = false) (ctx : Key) :
    (d.receiveMerge (e.publishBlob tiePolicy)).overrides.lookup ctx =
      mergeRegB (d.overrides.lookup ctx) (e.published ctx tiePolicy) := by
  obtain ⟨frontier', incoming, hread, -, hincoming⟩ :=
    he.foldl_readItem tiePolicy d.frontier h.frontier
  rw [receiveMerge, hread, hupgraded, ← hincoming ctx]
  exact lookup_foldl_mergeOverride incoming.entries incoming.nodupKeys d.overrides ctx

theorem Sound.lookup_incomingOverrides (he : e.Sound) (tiePolicy : Op) (ctx : Key) :
    (e.publishBlob tiePolicy).incomingOverrides.lookup ctx = e.published ctx tiePolicy := by
  obtain ⟨frontier', incoming, hread, -, hincoming⟩ :=
    he.foldl_readItem tiePolicy ∅ fun _ => le_rfl
  rw [Blob.incomingOverrides, hread]
  exact hincoming ctx

end DeviceB

end Buzz.NipRsUnread
