import Mathlib.Logic.Relation
import Buzz.NipRsUnread.Model

/-!
# Overrides that a merge revives

Any number of upgraded devices that mark contexts unread and read, advance, compact, publish, and
receive what was published, in any order and any number of times.

A published register is a tombstone or was live where it was published. The register of the receiver
may be neither: it keeps its counters and its baseline when it is cleared. A register that was
cleared at the frontier that it was set at lends its baseline to one that the frontier has passed.

## Main definitions

* `World`, `Step`: the devices and what they have published.
* `NeverResurrected`, `Revives`.

## Main results

* `Inv.run`: the baselines are within the frontiers.
* `never_resurrected_iff`, `resurrected`: what a merge revives.
-/

namespace Buzz.NipRsUnread

open Buzz.Library Relation

/-! ### What operations keep -/

namespace DeviceB

variable {d e : DeviceB} {ctx : Key}

/-- An operation that keeps the bounds of one override, and does not lower the frontier. -/
theorem Sound.of_lookup {d' : DeviceB} (h : d.Sound)
    (hfrontier : ∀ ctx, d.effectiveFrontier ctx ≤ d'.effectiveFrontier ctx)
    (hoverride : ∀ k reg, d'.overrides.lookup k = some reg → d.overrides.lookup k = some reg ∨
      0 ≤ reg.s ∧ 0 ≤ reg.c ∧ 0 ≤ reg.b ∧ reg.b ≤ d'.effectiveFrontier k) : d'.Sound where
  frontier ctx := (h.frontier ctx).trans (hfrontier ctx)
  override k reg hreg := by
    rcases hoverride k reg hreg with hold | hnew
    · obtain ⟨hs, hc, hb, hle⟩ := h.override k reg hold
      exact ⟨hs, hc, hb, hle.trans (hfrontier k)⟩
    · exact hnew

theorem Sound.cur (h : d.Sound) (ctx : Key) :
    0 ≤ ((d.overrides.lookup ctx).getD .zero).s ∧ 0 ≤ ((d.overrides.lookup ctx).getD .zero).c ∧
      0 ≤ ((d.overrides.lookup ctx).getD .zero).b ∧
        ((d.overrides.lookup ctx).getD .zero).b ≤ d.effectiveFrontier ctx := by
  cases hreg : d.overrides.lookup ctx with
  | none => exact ⟨le_rfl, le_rfl, le_rfl, h.frontier ctx⟩
  | some reg => exact h.override ctx reg hreg

theorem Sound.doAdvanceFrontier (h : d.Sound) (ctx : Key) (ts : ℤ) :
    (d.doAdvanceFrontier ctx ts).Sound := by
  refine h.of_lookup (fun k => ?_) fun k reg hreg => .inl hreg
  rw [effectiveFrontier, effectiveFrontier, DeviceB.doAdvanceFrontier, HashMap.lookup_insert_eq]
  split_ifs with hk
  · rw [hk]
    exact le_max_left _ ts
  · exact le_rfl

/-- One override is written, within the bounds. -/
theorem Sound.insert (h : d.Sound) {reg : RegB} (hs : 0 ≤ reg.s) (hc : 0 ≤ reg.c) (hb : 0 ≤ reg.b)
    (hle : reg.b ≤ d.effectiveFrontier ctx) :
    { d with overrides := d.overrides.insert ctx reg : DeviceB }.Sound := by
  refine h.of_lookup (fun k => le_rfl) fun k reg' hreg' => ?_
  rw [HashMap.lookup_insert_eq] at hreg'
  split_ifs at hreg' with hk
  · obtain rfl := Option.some.inj hreg'
    exact .inr ⟨hs, hc, hb, hk ▸ hle⟩
  · exact .inl hreg'

theorem Sound.doMarkUnread (h : d.Sound) (ctx : Key) : (d.doMarkUnread ctx).Sound := by
  rw [DeviceB.doMarkUnread]
  obtain ⟨hs, hc, -, -⟩ := h.cur ctx
  split_ifs
  · exact h
  · exact h.insert (by simp only [bump]; omega) hc (h.frontier ctx) le_rfl

theorem Sound.doMarkRead (h : d.Sound) (ctx : Key) (frontierTs : ℤ) :
    (d.doMarkRead ctx frontierTs).Sound := by
  have hadvanced := h.doAdvanceFrontier ctx frontierTs
  rw [DeviceB.doMarkRead]
  obtain ⟨hs, hc, hb, hle⟩ := hadvanced.cur ctx
  split_ifs
  · exact hadvanced
  · exact hadvanced.insert hs (by simp only [bump]; omega) hb hle

/-- A compacted register is within the bounds. -/
theorem Sound.compactB (h : d.Sound) {reg result : RegB} (hreg : d.overrides.lookup ctx = some reg)
    {tiePolicy : Op}
    (hresult : NipRsUnread.compactB reg (d.effectiveFrontier ctx) tiePolicy = some result) :
    0 ≤ result.s ∧ 0 ≤ result.c ∧ 0 ≤ result.b ∧ result.b ≤ d.effectiveFrontier ctx := by
  have hbounds := h.override ctx reg hreg
  have hfrontier := h.frontier ctx
  rw [NipRsUnread.compactB] at hresult
  split_ifs at hresult
  · obtain rfl := Option.some.inj hresult
    exact hbounds
  · obtain rfl := Option.some.inj hresult
    exact ⟨le_rfl, hbounds.1.trans (le_max_left _ _), le_rfl, hfrontier⟩

theorem Sound.doCompact (h : d.Sound) (ctx : Key) (tiePolicy : Op) :
    (d.doCompact ctx tiePolicy).Sound := by
  rw [DeviceB.doCompact]
  split
  · exact h
  next reg hreg =>
    split
    · refine h.of_lookup (fun k => le_rfl) fun k reg' hreg' => .inl ?_
      rw [HashMap.lookup_erase_eq] at hreg'
      split_ifs at hreg'
      exact hreg'
    next result hresult =>
      obtain ⟨hs, hc, hb, hle⟩ := h.compactB hreg hresult
      exact h.insert hs hc hb hle

/-- What a device publishes is within its bounds. -/
theorem Sound.published_bounds (h : d.Sound) {tiePolicy : Op} {reg : RegB}
    (hreg : d.published ctx tiePolicy = some reg) :
    0 ≤ reg.s ∧ 0 ≤ reg.c ∧ 0 ≤ reg.b ∧ reg.b ≤ d.effectiveFrontier ctx := by
  rw [published] at hreg
  split_ifs at hreg
  rw [canonicalizeForPublish] at hreg
  split at hreg
  · cases hreg
  next cur hcur =>
    split at hreg
    · cases hreg
    next result hresult =>
      obtain rfl := Option.some.inj hreg
      exact h.compactB hcur hresult

theorem Sound.receiveMerge (h : d.Sound) (he : e.Sound) (tiePolicy : Op)
    (hupgraded : d.isLegacy = false) : (d.receiveMerge (e.publishBlob tiePolicy)).Sound := by
  refine h.of_lookup (fun k => ?_) fun k reg hreg => ?_
  · rw [h.effectiveFrontier_receiveMerge he tiePolicy k]
    exact le_max_left _ _
  rw [h.lookup_receiveMerge he tiePolicy hupgraded k] at hreg
  rw [h.effectiveFrontier_receiveMerge he tiePolicy k]
  cases hcur : d.overrides.lookup k with
  | none =>
    rw [hcur] at hreg
    have hpublished : e.published k tiePolicy = some reg := hreg
    obtain ⟨hs, hc, hb, hle⟩ := he.published_bounds hpublished
    exact .inr ⟨hs, hc, hb, hle.trans (le_max_right _ _)⟩
  | some cur =>
    rw [hcur] at hreg
    cases hpublished : e.published k tiePolicy with
    | none =>
      rw [hpublished] at hreg
      exact .inl hreg
    | some reg' =>
      rw [hpublished] at hreg
      obtain rfl := Option.some.inj hreg
      obtain ⟨hs, hc, hb, hle⟩ := h.override k cur hcur
      obtain ⟨-, -, -, hle'⟩ := he.published_bounds hpublished
      exact .inr ⟨hs.trans (le_max_left _ _), hc.trans (le_max_left _ _),
        hb.trans (le_max_left _ _), max_le_max hle hle'⟩

/-- With clear wins, a device publishes a tombstone, or a live register whose baseline is its
frontier. -/
theorem Sound.published_clear (h : d.Sound) {reg : RegB}
    (hreg : d.published ctx .clear = some reg) :
    (reg.s = 0 ∧ reg.b = 0) ∨ (reg.c < reg.s ∧ reg.b = d.effectiveFrontier ctx) := by
  rw [published] at hreg
  split_ifs at hreg
  rw [canonicalizeForPublish] at hreg
  split at hreg
  · cases hreg
  next cur hcur =>
    obtain ⟨-, hc, -, hle⟩ := h.override ctx cur hcur
    split at hreg
    · cases hreg
    next result hresult =>
      obtain rfl := Option.some.inj hreg
      rw [NipRsUnread.compactB] at hresult
      split_ifs at hresult with hvirgin hlive
      · obtain rfl := Option.some.inj hresult
        obtain ⟨hahead, hwithin⟩ := (overrideSetB_clear_iff hc).mp hlive
        exact .inr ⟨hahead, le_antisymm hle hwithin⟩
      · obtain rfl := Option.some.inj hresult
        exact .inl ⟨rfl, rfl⟩

@[simp] theorem isLegacy_doMarkUnread (d : DeviceB) (ctx : Key) :
    (d.doMarkUnread ctx).isLegacy = d.isLegacy := by
  rw [DeviceB.doMarkUnread]
  split_ifs <;> rfl

@[simp] theorem isLegacy_doMarkRead (d : DeviceB) (ctx : Key) (frontierTs : ℤ) :
    (d.doMarkRead ctx frontierTs).isLegacy = d.isLegacy := by
  rw [DeviceB.doMarkRead]
  split_ifs <;> rfl

@[simp] theorem isLegacy_doCompact (d : DeviceB) (ctx : Key) (tiePolicy : Op) :
    (d.doCompact ctx tiePolicy).isLegacy = d.isLegacy := by
  rw [DeviceB.doCompact]
  split
  · rfl
  · split <;> rfl

end DeviceB

/-! ### What a merge revives -/

/-- An override that is set after a merge was live before, in the register of the receiver or in
that of the blob, at the frontier after the merge. -/
def NeverResurrected (d : DeviceB) (blob : Blob) (ctx : Key) : Prop :=
  (d.receiveMerge blob).overrideIsSet ctx .clear = true →
    overrideSetB (d.overrides.lookup ctx) ((d.receiveMerge blob).effectiveFrontier ctx) .clear =
        true ∨
      overrideSetB (blob.incomingOverrides.lookup ctx)
        ((d.receiveMerge blob).effectiveFrontier ctx) .clear = true

/-- The receiver has cleared an override at the frontier that it was set at, and the blob carries
one that was set at an older frontier, with a counter above both clear counters. -/
def Revives (d : DeviceB) (blob : Blob) (ctx : Key) : Prop :=
  ∃ cur incoming, d.overrides.lookup ctx = some cur ∧
    blob.incomingOverrides.lookup ctx = some incoming ∧
      (cur.s ≤ cur.c ∧ cur.b = d.effectiveFrontier ctx) ∧
        incoming.b < cur.b ∧ cur.c < incoming.s ∧ incoming.c < incoming.s

theorem DeviceB.Sound.neverResurrected_iff {d e : DeviceB} (h : d.Sound) (he : e.Sound)
    (hupgraded : d.isLegacy = false) (ctx : Key) :
    NeverResurrected d (e.publishBlob .clear) ctx ↔ ¬Revives d (e.publishBlob .clear) ctx := by
  rw [NeverResurrected, Revives, overrideIsSet, h.lookup_receiveMerge he .clear hupgraded ctx,
    h.effectiveFrontier_receiveMerge he .clear ctx, he.lookup_incomingOverrides .clear ctx]
  cases hcur : d.overrides.lookup ctx with
  | none =>
    refine iff_of_true (fun hset => .inr hset) ?_
    rintro ⟨cur, incoming, hnone, -⟩
    cases hnone
  | some cur =>
    cases hpublished : e.published ctx .clear with
    | none =>
      refine iff_of_true (fun hset => .inl hset) ?_
      rintro ⟨cur, incoming, -, hnone, -⟩
      cases hnone
    | some incoming =>
      obtain ⟨hs, hc, hb, hle⟩ := h.override ctx cur hcur
      obtain ⟨hs', hc', hb', hle'⟩ := he.published_bounds hpublished
      have hform := he.published_clear hpublished
      have hmerged : mergeRegB (some cur) (some incoming) =
          some ⟨max cur.s incoming.s, max cur.c incoming.c, max cur.b incoming.b⟩ := rfl
      rw [hmerged, overrideSetB_clear_iff (hc.trans (le_max_left _ _)), overrideSetB_clear_iff hc,
        overrideSetB_clear_iff hc']
      simp only [Option.some.injEq, exists_and_left, exists_eq_left']
      have hfrontier := h.frontier ctx
      rcases hform with ⟨htombstone, hzero⟩ | ⟨hlive, hbase⟩
      · -- the set counter and the baseline are those of the receiver
        rw [htombstone, hzero, max_eq_left hs, max_eq_left hb]
        refine iff_of_true (fun hset => .inl ⟨(le_max_left _ _).trans_lt hset.1, hset.2⟩) ?_
        omega
      · -- the frontier has passed the baseline of the blob, so the baseline is the receiver's
        rw [hbase]
        omega

/-! ### Runs -/

/-- The devices, and the blobs that they have published. -/
structure World (ι : Type*) where
  devices : ι → DeviceB
  published : List Blob

variable {ι : Type*} [DecidableEq ι]

namespace World

/-- Upgraded devices that have done nothing. -/
def new (names : ι → Key) : World ι := ⟨fun i => .new (names i), []⟩

/-- One device changes. -/
def update (w : World ι) (i : ι) (d : DeviceB) : World ι :=
  { w with devices := Function.update w.devices i d }

end World

/-- One operation of one device, with clear wins. What is delivered was published, at any time
before. -/
inductive Step : World ι → World ι → Prop
  | markUnread {w} (i : ι) (ctx : Key) : Step w (w.update i ((w.devices i).doMarkUnread ctx))
  | markRead {w} (i : ι) (ctx : Key) (frontierTs : ℤ) :
      Step w (w.update i ((w.devices i).doMarkRead ctx frontierTs))
  | advanceFrontier {w} (i : ι) (ctx : Key) (ts : ℤ) :
      Step w (w.update i ((w.devices i).doAdvanceFrontier ctx ts))
  | compact {w} (i : ι) (ctx : Key) : Step w (w.update i ((w.devices i).doCompact ctx .clear))
  | publish {w} (i : ι) :
      Step w { w with published := (w.devices i).publishBlob .clear :: w.published }
  | deliver {w} (i : ι) (blob : Blob) (hblob : blob ∈ w.published) :
      Step w (w.update i ((w.devices i).receiveMerge blob))

/-- The invariant of runs: devices are sound, and so were the devices that published. -/
structure Inv (w : World ι) : Prop where
  sound : ∀ i, (w.devices i).Sound
  upgraded : ∀ i, (w.devices i).isLegacy = false
  published : ∀ blob ∈ w.published, ∃ e : DeviceB, e.Sound ∧ blob = e.publishBlob .clear

namespace Inv

variable {w w' : World ι}

omit [DecidableEq ι] in
theorem new (names : ι → Key) : Inv (.new names : World ι) where
  sound _ := ⟨fun _ => le_rfl, fun _ _ h => (nomatch h)⟩
  upgraded _ := rfl
  published _ h := absurd h List.not_mem_nil

theorem update (h : Inv w) (i : ι) {d : DeviceB} (hd : d.Sound) (hupgraded : d.isLegacy = false) :
    Inv (w.update i d) where
  sound := (Function.forall_update_iff w.devices fun _ d => d.Sound).mpr
    ⟨hd, fun j _ => h.sound j⟩
  upgraded := (Function.forall_update_iff w.devices fun _ d => d.isLegacy = false).mpr
    ⟨hupgraded, fun j _ => h.upgraded j⟩
  published := h.published

theorem step (h : Inv w) (hstep : Step w w') : Inv w' := by
  cases hstep with
  | markUnread i ctx =>
    exact h.update i ((h.sound i).doMarkUnread ctx) (by simpa using h.upgraded i)
  | markRead i ctx frontierTs =>
    exact h.update i ((h.sound i).doMarkRead ctx frontierTs) (by simpa using h.upgraded i)
  | advanceFrontier i ctx ts =>
    exact h.update i ((h.sound i).doAdvanceFrontier ctx ts) (h.upgraded i)
  | compact i ctx =>
    exact h.update i ((h.sound i).doCompact ctx .clear) (by simpa using h.upgraded i)
  | publish i =>
    refine ⟨h.sound, h.upgraded, fun blob hblob => ?_⟩
    rcases List.mem_cons.mp hblob with rfl | hblob
    · exact ⟨w.devices i, h.sound i, rfl⟩
    · exact h.published blob hblob
  | deliver i blob hblob =>
    obtain ⟨e, he, rfl⟩ := h.published blob hblob
    exact h.update i ((h.sound i).receiveMerge he .clear (h.upgraded i)) (h.upgraded i)

theorem run {names : ι → Key} (hrun : ReflTransGen Step (.new names) w) : Inv w := by
  induction hrun with
  | refl => exact .new names
  | tail _ hstep ih => exact ih.step hstep

end Inv

/-- In every run, a merge revives an override exactly where the receiver has cleared one at the
frontier that it was set at, and the blob carries one with a later counter and an older
baseline. -/
theorem never_resurrected_iff (names : ι → Key) (w : World ι)
    (hrun : ReflTransGen Step (.new names) w) (i : ι) (blob : Blob) (hblob : blob ∈ w.published)
    (ctx : Key) :
    NeverResurrected (w.devices i) blob ctx ↔ ¬Revives (w.devices i) blob ctx := by
  have h := Inv.run hrun
  obtain ⟨e, he, rfl⟩ := h.published blob hblob
  exact (h.sound i).neverResurrected_iff he (h.upgraded i) ctx

/-- A device marks a context unread, and another receives it. -/
theorem never_resurrected_marked : ∃ (w : World Bool) (blob : Blob),
    ((w.devices true).receiveMerge blob).overrideIsSet [] .clear = true ∧
      NeverResurrected (w.devices true) blob [] := by
  have hnew : ReflTransGen Step (World.new fun _ : Bool => []) _ := .refl
  have hrun := (hnew.tail (.markUnread false [])).tail (.publish false)
  refine ⟨_, _, ?_, (never_resurrected_iff _ _ hrun true _ List.mem_cons_self []).mpr ?_⟩
  · rfl
  · rintro ⟨_, _, hnone, -⟩
    cases hnone

/-- One device has set and cleared a context at the frontier 100. Another has set it for the second
time, at the frontier 50. Neither is live at 100, and the merge is. -/
theorem resurrected : ∃ (w : World Bool) (blob : Blob),
    ReflTransGen Step (.new fun _ => []) w ∧ blob ∈ w.published ∧
      ¬NeverResurrected (w.devices true) blob [] := by
  have hnew : ReflTransGen Step (World.new fun _ : Bool => []) _ := .refl
  have hold := (((hnew.tail (.advanceFrontier false [] 50)).tail (.markUnread false [])).tail
    (.markRead false [] 50)).tail (.markUnread false [])
  have hrun := (((hold.tail (.publish false)).tail (.advanceFrontier true [] 100)).tail
    (.markUnread true [])).tail (.markRead true [] 100)
  refine ⟨_, _, hrun, List.mem_cons_self, fun hnever => ?_⟩
  rcases hnever rfl with hlive | hlive
  · cases hlive
  · cases hlive

end Buzz.NipRsUnread
