import Buzz.Desktop.ReadState.Slots

/-!
# The byte budget of slots

`trimContextsToBudget` decides what to evict by an estimate: the UTF-16 length of the key and the
length of the timestamp, with the quotes, the colon and a comma. The text of an entry takes at least
as many bytes, and exactly as many where the key is plain; only the last entry of all has no comma.
So what is left fits whenever the estimate says so, or nothing is left.

The slots of a split then fit too: they fit with their channel keys alone, and the first one is
trimmed to the budget after the thread and message entries are added. Every channel entry lands in
one slot, unless its key is `__proto__`, which no object can be given as a key by assignment.

## Main definitions

* `entryBytes`, `contextBytes`: the bytes of an entry and of all entries.
* `TrimSpec`, `SplitSpec`: what trimming and splitting are to do.

## Main results

* `blobSize_eq`: the size of a blob.
* `toEvict_spec`: how far the estimate evicts.
* `trimSpec_trimContextsToBudget`: trimming.
* `splitSpec_iff`, `trim_and_split`: splitting.
-/

namespace Buzz.Desktop.ReadState

open Buzz.Library

/-! ### Sizes -/

@[simp]
theorem utf8Length_nil : utf8Length [] = 0 := rfl

@[simp]
theorem utf8Length_cons (c : Char) (text : List Char) :
    utf8Length (c :: text) = c.utf8Size + utf8Length text := by
  simp [utf8Length]

@[simp]
theorem utf8Length_append (s t : List Char) :
    utf8Length (s ++ t) = utf8Length s + utf8Length t := by
  simp [utf8Length]

theorem utf8Size_of_ascii {c : Char} (h : c.toNat < 128) : c.utf8Size = 1 := by
  rw [Char.utf8Size, if_pos]
  exact UInt32.le_iff_toNat_le.mpr (Nat.le_of_lt_succ h)

theorem utf8Length_of_ascii {text : List Char} (h : ∀ c ∈ text, c.toNat < 128) :
    utf8Length text = text.length := by
  induction text with
  | nil => rfl
  | cons c text ih =>
    rw [utf8Length_cons, utf8Size_of_ascii (h c (by simp)), ih fun x hx => h x (by simp [hx]),
      List.length_cons, Nat.add_comm]

theorem utf8Length_toDigits (n : ℕ) :
    utf8Length (Nat.toDigits 10 n) = (Nat.toDigits 10 n).length := by
  refine utf8Length_of_ascii fun c hc => ?_
  have hdigit : c.isDigit = true := Nat.isDigit_of_mem_toDigits (by omega) (by omega) hc
  simp only [Char.isDigit, Bool.and_eq_true, decide_eq_true_eq] at hdigit
  have hle : c.val.toNat ≤ 57 := UInt32.le_iff_toNat_le.mp hdigit.2
  exact lt_of_le_of_lt hle (by omega)

theorem utf8Length_renderInt (n : ℕ) :
    utf8Length (Json.renderInt n) = (Nat.toDigits 10 n).length :=
  utf8Length_toDigits n

/-- The bytes of an entry in the text of a blob: its quoted key, a colon, the digits of its
timestamp and a comma. -/
def entryBytes (e : List Char × ℕ) : ℕ :=
  utf8Length (Json.quote e.1) + (Nat.toDigits 10 e.2).length + 2

/-- What `trimContextsToBudget` takes for the bytes of an entry. -/
def entryEstimate (e : List Char × ℕ) : ℕ :=
  utf16Length e.1 + 3 + (Nat.toDigits 10 e.2).length + 1

/-- The bytes of all entries. -/
def contextBytes (contexts : Record) : ℕ :=
  (contexts.entries.map fun e => entryBytes (e.1, e.2)).sum

theorem entryBytes_pos (e : List Char × ℕ) : 0 < entryBytes e := by
  rw [entryBytes]
  omega

theorem utf8Length_renderMembers (entries : List (List Char × ℕ)) :
    utf8Length (Json.renderMembers (entries.map fun e => (e.1, .int e.2))) =
      (entries.map entryBytes).sum + 1 := by
  induction entries with
  | nil => rfl
  | cons e entries ih =>
    have hcomma : ','.utf8Size = 1 := rfl
    have hcolon : ':'.utf8Size = 1 := rfl
    simp only [List.map_cons, Json.renderMembers, Json.render, utf8Length_cons, utf8Length_append,
      ih, utf8Length_renderInt, List.sum_cons, entryBytes, hcomma, hcolon]
    omega

theorem utf8Length_renderContexts (entries : List (List Char × ℕ)) :
    utf8Length (Json.render (.obj (entries.map fun e => (e.1, .int e.2)))) =
      2 + ((entries.map entryBytes).sum - 1) := by
  rcases entries with _ | ⟨e, entries⟩
  · rfl
  · have hbrace : '{'.utf8Size = 1 := rfl
    have hcolon : ':'.utf8Size = 1 := rfl
    simp only [List.map_cons, Json.render, utf8Length_cons, utf8Length_append,
      utf8Length_renderMembers, utf8Length_renderInt, List.sum_cons, entryBytes, hbrace, hcolon]
    omega

theorem objectEntries_perm (contexts : Record) :
    (objectEntries contexts).Perm (contexts.entries.map fun e => (e.1, e.2)) := by
  have hnone : (fun e : List Char × ℕ => (arrayIndex? e.1).isNone) =
      fun e => !(arrayIndex? e.1).isSome := by
    funext e
    cases arrayIndex? e.1 <;> rfl
  rw [objectEntries, hnone]
  exact ((sortByKey_perm _ _).append_right _).trans (List.filter_append_perm _ _)

/-- The size of a blob: that of a blob without contexts, and the bytes of its entries without the
comma of the last one. -/
theorem blobSize_eq (clientId : List Char) (contexts : Record) :
    blobSize clientId contexts = blobSize clientId ∅ + (contextBytes contexts - 1) := by
  have hsum : ((objectEntries contexts).map entryBytes).sum = contextBytes contexts := by
    rw [((objectEntries_perm contexts).map entryBytes).sum_nat, List.map_map]
    rfl
  have hempty : ∀ c : Record, blobSize clientId c =
      blobSize clientId ∅ + (((objectEntries c).map entryBytes).sum - 1) := by
    intro c
    simp only [blobSize, blobFor, Json.render, Json.renderMembers, utf8Length_cons,
      utf8Length_append, utf8Length_renderContexts]
    have hnil : (((objectEntries ∅).map entryBytes).sum - 1) = 0 := rfl
    omega
  rw [hempty, hsum]

/-- Contexts with the same timestamps have blobs of one size. -/
theorem blobSize_congr {contexts contexts' : Record} (clientId : List Char)
    (h : ∀ k, contexts.lookup k = contexts'.lookup k) :
    blobSize clientId contexts = blobSize clientId contexts' := by
  have hperm : contexts.entries.Perm contexts'.entries := HashMap.rehash_of_lookup_eq h
  have hbytes : contextBytes contexts = contextBytes contexts' := (hperm.map _).sum_nat
  rw [blobSize_eq, blobSize_eq clientId contexts', hbytes]

theorem contextBytes_erase {contexts : Record} {k : List Char} {v : ℕ}
    (h : contexts.lookup k = some v) :
    contextBytes contexts = entryBytes (k, v) + contextBytes (contexts.erase k) := by
  have hperm := (HashMap.entries_perm_erase h).map fun e => entryBytes (e.1, e.2)
  exact hperm.sum_nat

/-- The bytes of what is deleted are missing from the rest. -/
theorem contextBytes_deleteAll {entries : List (List Char × ℕ)} {contexts : Record}
    (hheld : ∀ e ∈ entries, contexts.lookup e.1 = some e.2)
    (hnodup : (entries.map Prod.fst).Nodup) :
    contextBytes contexts =
      (entries.map entryBytes).sum + contextBytes (deleteAll contexts (entries.map Prod.fst)) := by
  induction entries generalizing contexts with
  | nil => simp [deleteAll]
  | cons e entries ih =>
    rw [List.map_cons, List.nodup_cons] at hnodup
    have hrest : ∀ e' ∈ entries, (contexts.erase e.1).lookup e'.1 = some e'.2 := by
      intro e' he'
      have hne : e'.1 ≠ e.1 := fun heq => hnodup.1 (heq ▸ List.mem_map_of_mem he')
      rw [HashMap.lookup_erase_eq, if_neg hne, hheld e' (by simp [he'])]
    have hdelete : deleteAll contexts ((e :: entries).map Prod.fst) =
        deleteAll (contexts.erase e.1) (entries.map Prod.fst) := rfl
    rw [contextBytes_erase (hheld e (by simp)), ih hrest hnodup.2, hdelete, List.map_cons,
      List.sum_cons, Nat.add_assoc]

/-! ### The estimate -/

/-- A key that is written as it is, a byte for each character. -/
def PlainKey (key : List Char) : Prop :=
  ∀ c ∈ key, Json.escapeChar c = [c] ∧ c.toNat < 128

theorem length_le_utf8Length (text : List Char) : text.length ≤ utf8Length text := by
  induction text with
  | nil => exact le_rfl
  | cons c text ih =>
    have hc := c.utf8Size_pos
    rw [List.length_cons, utf8Length_cons]
    omega

theorem escapeChar_cases (c : Char) :
    Json.escapeChar c = [c] ∨ 2 ≤ (Json.escapeChar c).length := by
  rw [Json.escapeChar]
  split_ifs <;> simp

/-- A character takes at least as many bytes in a quoted text as it has UTF-16 code units. -/
theorem utf16Units_le_escapeChar (c : Char) :
    (if c.toNat < 0x10000 then 1 else 2) ≤ utf8Length (Json.escapeChar c) := by
  rcases escapeChar_cases c with hself | hlong
  · rw [hself, utf8Length_cons, utf8Length_nil, Nat.add_zero]
    have hpos := c.utf8Size_pos
    split_ifs with hc
    · omega
    · have hbig : ∀ n : UInt32, n.toNat < 0x10000 → ¬ c.val ≤ n := fun n hn hle =>
        hc (lt_of_le_of_lt (UInt32.le_iff_toNat_le.mp hle) hn)
      rw [Char.utf8Size, if_neg (hbig _ (by decide)), if_neg (hbig _ (by decide)),
        if_neg (hbig _ (by decide))]
      omega
  · refine le_trans ?_ (hlong.trans (length_le_utf8Length _))
    split_ifs <;> omega

theorem utf16Length_le_flatMap (text : List Char) :
    utf16Length text ≤ utf8Length (text.flatMap Json.escapeChar) := by
  induction text with
  | nil => exact le_rfl
  | cons c text ih =>
    have hc := utf16Units_le_escapeChar c
    have hcons : utf16Length (c :: text) =
        (if c.toNat < 0x10000 then 1 else 2) + utf16Length text := by simp [utf16Length]
    rw [List.flatMap_cons, utf8Length_append, hcons]
    omega

theorem flatMap_of_plainKey {key : List Char} (h : PlainKey key) :
    utf8Length (key.flatMap Json.escapeChar) = utf16Length key := by
  induction key with
  | nil => rfl
  | cons c key ih =>
    obtain ⟨hescape, hascii⟩ := h c (by simp)
    have hunits : utf16Length (c :: key) = 1 + utf16Length key := by
      simp [utf16Length, show c.toNat < 0x10000 by omega]
    rw [List.flatMap_cons, utf8Length_append, hescape, ih fun x hx => h x (by simp [hx]), hunits,
      utf8Length_cons, utf8Length_nil, utf8Size_of_ascii hascii]

theorem utf8Length_quote (key : List Char) :
    utf8Length (Json.quote key) = utf8Length (key.flatMap Json.escapeChar) + 2 := by
  have hquote : '"'.utf8Size = 1 := rfl
  simp only [Json.quote, utf8Length_cons, utf8Length_append, utf8Length_nil, hquote]
  omega

/-- The estimate never takes an entry for more than it is. -/
theorem entryEstimate_le (e : List Char × ℕ) : entryEstimate e ≤ entryBytes e := by
  have hkey := utf16Length_le_flatMap e.1
  rw [entryEstimate, entryBytes, utf8Length_quote]
  omega

theorem entryEstimate_of_plainKey {e : List Char × ℕ} (h : PlainKey e.1) :
    entryEstimate e = entryBytes e := by
  rw [entryEstimate, entryBytes, utf8Length_quote, flatMap_of_plainKey h]
  omega

/-- How far the estimate evicts: up to the first entry at which it is within the budget. -/
theorem toEvict_spec (maxBytes : ℕ) (entries : List (List Char × ℕ)) (currentBytes : ℕ) :
    ∃ n ≤ entries.length,
      toEvict maxBytes currentBytes entries = (entries.take n).map Prod.fst ∧
      (n < entries.length →
        currentBytes - ((entries.take n).map entryEstimate).sum ≤ maxBytes) ∧
      ∀ i < n, maxBytes < currentBytes - ((entries.take i).map entryEstimate).sum := by
  induction entries generalizing currentBytes with
  | nil => exact ⟨0, le_rfl, rfl, nofun, nofun⟩
  | cons e entries ih =>
    rw [toEvict]
    split_ifs with hfits
    · exact ⟨0, Nat.zero_le _, rfl, fun _ => by simpa using hfits, nofun⟩
    · obtain ⟨n, hn, hevict, hstop, hgo⟩ := ih (currentBytes - entryEstimate e)
      have hsum : ∀ i, currentBytes - (((e :: entries).take (i + 1)).map entryEstimate).sum =
          currentBytes - entryEstimate e - ((entries.take i).map entryEstimate).sum := by
        intro i
        rw [List.take_succ_cons, List.map_cons, List.sum_cons, Nat.sub_sub]
      refine ⟨n + 1, Nat.succ_le_succ hn, congrArg (e.1 :: ·) hevict, fun hlt => ?_, ?_⟩
      · rw [hsum]
        exact hstop (Nat.lt_of_succ_lt_succ hlt)
      · intro i hi
        rcases i with _ | i
        · simpa using hfits
        · rw [hsum]
          exact hgo i (Nat.lt_of_succ_lt_succ hi)

/-! ### Trimming to the budget -/

/-- The entries that may be evicted, in the order in which they are: messages and then threads,
the oldest first. -/
def evictionOrder (contexts : Record) : List (List Char × ℕ) :=
  sortByKey (·.2) ((objectEntries contexts).filter fun e => isMsgKey e.1) ++
    sortByKey (·.2) ((objectEntries contexts).filter fun e => !isMsgKey e.1 && isThreadKey e.1)

theorem mem_evictionOrder {contexts : Record} {e : List Char × ℕ} :
    e ∈ evictionOrder contexts ↔
      contexts.lookup e.1 = some e.2 ∧ isChannelKey e.1 = false := by
  rw [evictionOrder, List.mem_append, (sortByKey_perm _ _).mem_iff, (sortByKey_perm _ _).mem_iff,
    List.mem_filter, List.mem_filter, ← and_or_left, mem_objectEntries_iff, isChannelKey]
  cases isMsgKey e.1 <;> cases isThreadKey e.1 <;> simp

theorem nodup_evictionOrder (contexts : Record) :
    ((evictionOrder contexts).map Prod.fst).Nodup := by
  have hkeys : ((objectEntries contexts).map Prod.fst).Nodup := by
    refine ((objectEntries_perm contexts).map Prod.fst).nodup_iff.mpr ?_
    rw [List.map_map]
    exact contexts.nodupKeys
  have hpart : ∀ p : List Char × ℕ → Bool,
      ((sortByKey (·.2) ((objectEntries contexts).filter p)).map Prod.fst).Nodup := fun p =>
    ((sortByKey_perm _ _).map Prod.fst).nodup_iff.mpr
      (hkeys.sublist (List.filter_sublist.map Prod.fst))
  rw [evictionOrder, List.map_append]
  refine (hpart _).append (hpart _) fun k hk hk' => ?_
  obtain ⟨e, he, rfl⟩ := List.mem_map.mp hk
  obtain ⟨e', he', hkey⟩ := List.mem_map.mp hk'
  rw [(sortByKey_perm _ _).mem_iff, List.mem_filter] at he he'
  simp only [hkey, Bool.and_eq_true, Bool.not_eq_true'] at he'
  exact Bool.false_ne_true (he'.2.1.symm.trans he.2)

theorem evictionOrder_pairwise (contexts : Record) :
    (evictionOrder contexts).Pairwise fun e e' =>
      (isMsgKey e'.1 = true → isMsgKey e.1 = true) ∧
        (isMsgKey e.1 = isMsgKey e'.1 → e.2 ≤ e'.2) := by
  have hmem : ∀ {p : List Char × ℕ → Bool} {e},
      e ∈ sortByKey (·.2) ((objectEntries contexts).filter p) → p e = true := fun he =>
    (List.mem_filter.mp ((sortByKey_perm _ _).subset he)).2
  rw [evictionOrder, List.pairwise_append]
  refine ⟨?_, ?_, fun e he e' he' => ?_⟩
  · exact (sortByKey_pairwise _ _).imp_of_mem fun he _ hle =>
      ⟨fun _ => hmem he, fun _ => hle⟩
  · refine (sortByKey_pairwise _ _).imp_of_mem fun _ he' hle => ⟨fun hmsg => ?_, fun _ => hle⟩
    have hthread := hmem he'
    simp [hmsg] at hthread
  · have hmsg : isMsgKey e.1 = true := hmem he
    have hthread := hmem he'
    simp only [Bool.and_eq_true, Bool.not_eq_true'] at hthread
    exact ⟨fun _ => hmsg, fun heq => by simp [hmsg, hthread.1] at heq⟩

/-- What trimming is to do: `removed` are the evicted entries, in their order. -/
structure TrimSpec (contexts : Record) (clientId : List Char) (maxBytes : ℕ)
    (removed : List (List Char × ℕ)) (result : TrimResult) : Prop where
  held : ∀ e ∈ removed, contexts.lookup e.1 = some e.2
  nodup : (removed.map Prod.fst).Nodup
  kept : ∀ k, result.contexts.lookup k =
    if k ∈ removed.map Prod.fst then none else contexts.lookup k
  evicted : result.evicted = removed.length
  /-- Only message and thread keys are removed. -/
  evictable : ∀ e ∈ removed, isMsgKey e.1 = true ∨ isThreadKey e.1 = true
  /-- A thread key is removed only if no message key remains. -/
  messagesFirst : ∀ e ∈ removed, isMsgKey e.1 = false →
    ∀ k, isMsgKey k = true → result.contexts.lookup k = none
  /-- Within a tier the timestamps of the removed entries do not decrease. -/
  ordered : removed.Pairwise fun e e' => isMsgKey e.1 = isMsgKey e'.1 → e.2 ≤ e'.2
  /-- What remains of a tier is no older than what is removed. -/
  oldest : ∀ e ∈ removed, ∀ k v, result.contexts.lookup k = some v → isChannelKey k = false →
    isMsgKey e.1 = isMsgKey k → e.2 ≤ v
  fits : result.fitsAfterTrim = true ↔ blobSize clientId result.contexts ≤ maxBytes
  /-- If the rest does not fit, it has channel keys only. -/
  exhausted : result.fitsAfterTrim = false →
    ∀ k v, result.contexts.lookup k = some v → isChannelKey k = true
  /-- With plain keys the last entry had to be removed. -/
  minimal : (∀ k v, contexts.lookup k = some v → PlainKey k) →
    ∀ before e, removed = before ++ [e] →
      maxBytes < blobSize clientId (deleteAll contexts (before.map Prod.fst))

theorem contextBytes_pos {contexts : Record} {k : List Char} {v : ℕ}
    (h : contexts.lookup k = some v) : 0 < contextBytes contexts := by
  have hpos := entryBytes_pos (k, v)
  rw [contextBytes_erase h]
  omega

theorem sum_entryEstimate_le (entries : List (List Char × ℕ)) :
    (entries.map entryEstimate).sum ≤ (entries.map entryBytes).sum := by
  induction entries with
  | nil => exact le_rfl
  | cons e entries ih =>
    have he := entryEstimate_le e
    simp only [List.map_cons, List.sum_cons]
    omega

section Removal

variable {contexts : Record} {clientId : List Char} {maxBytes n : ℕ}

/-- The entries that a pass evicts, and what it leaves. -/
theorem take_evictionOrder_held (e : List Char × ℕ) (he : e ∈ (evictionOrder contexts).take n) :
    contexts.lookup e.1 = some e.2 :=
  (mem_evictionOrder.mp (List.mem_of_mem_take he)).1

theorem nodup_take_evictionOrder :
    (((evictionOrder contexts).take n).map Prod.fst).Nodup :=
  (nodup_evictionOrder contexts).sublist ((List.take_sublist _ _).map Prod.fst)

/-- An entry that may be evicted is among those taken, or it remains and the pass ends before the
last one. -/
theorem mem_take_or_lt {k : List Char} {v : ℕ} (hk : contexts.lookup k = some v)
    (hchannel : isChannelKey k = false) (n : ℕ) :
    (k, v) ∈ (evictionOrder contexts).take n ∨
      n < (evictionOrder contexts).length ∧ (k, v) ∈ (evictionOrder contexts).drop n := by
  have hmem : (k, v) ∈ (evictionOrder contexts).take n ++ (evictionOrder contexts).drop n := by
    rw [List.take_append_drop]
    exact mem_evictionOrder.mpr ⟨hk, hchannel⟩
  rcases List.mem_append.mp hmem with htake | hdrop
  · exact .inl htake
  · refine .inr ⟨?_, hdrop⟩
    by_contra hle
    rw [List.drop_eq_nil_of_le (not_lt.mp hle)] at hdrop
    exact List.not_mem_nil hdrop

/-- What remains after the pass fits when the estimate says so. -/
theorem blobSize_deleteAll_le {entries : List (List Char × ℕ)} {k : List Char} {v : ℕ}
    (hheld : ∀ e ∈ entries, contexts.lookup e.1 = some e.2)
    (hnodup : (entries.map Prod.fst).Nodup)
    (hk : (deleteAll contexts (entries.map Prod.fst)).lookup k = some v) :
    blobSize clientId (deleteAll contexts (entries.map Prod.fst)) ≤
      blobSize clientId contexts - (entries.map entryEstimate).sum := by
  have hbytes := contextBytes_deleteAll hheld hnodup
  have hpos := contextBytes_pos hk
  have hle := sum_entryEstimate_le entries
  rw [blobSize_eq, blobSize_eq clientId contexts]
  omega

/-- With plain keys the estimate is exact while entries remain. -/
theorem blobSize_deleteAll_eq {entries : List (List Char × ℕ)} {k : List Char} {v : ℕ}
    (hheld : ∀ e ∈ entries, contexts.lookup e.1 = some e.2)
    (hnodup : (entries.map Prod.fst).Nodup) (hplain : ∀ e ∈ entries, PlainKey e.1)
    (hk : (deleteAll contexts (entries.map Prod.fst)).lookup k = some v) :
    blobSize clientId (deleteAll contexts (entries.map Prod.fst)) =
      blobSize clientId contexts - (entries.map entryEstimate).sum := by
  have hexact : entries.map entryEstimate = entries.map entryBytes :=
    List.map_congr_left fun e he => entryEstimate_of_plainKey (hplain e he)
  have hbytes := contextBytes_deleteAll hheld hnodup
  have hpos := contextBytes_pos hk
  rw [blobSize_eq, blobSize_eq clientId contexts, hexact]
  omega

/-- With plain keys, keeping one of the evicted entries and those after it would not fit. -/
theorem lt_blobSize_deleteAll_take {i : ℕ} (hi : i < (evictionOrder contexts).length)
    (hplain : ∀ k v, contexts.lookup k = some v → PlainKey k)
    (hgo : maxBytes < blobSize clientId contexts -
      (((evictionOrder contexts).take i).map entryEstimate).sum) :
    maxBytes < blobSize clientId
      (deleteAll contexts (((evictionOrder contexts).take i).map Prod.fst)) := by
  have hnext : (evictionOrder contexts)[i].1 ∉
      ((evictionOrder contexts).take i).map Prod.fst := by
    have hnodup : (((evictionOrder contexts).take (i + 1)).map Prod.fst).Nodup :=
      nodup_take_evictionOrder
    rw [List.take_succ_eq_append_getElem hi, List.map_append] at hnodup
    exact fun hmem => (List.nodup_append.mp hnodup).2.2 _ hmem _ (by simp) rfl
  have hlast : (deleteAll contexts (((evictionOrder contexts).take i).map Prod.fst)).lookup
      (evictionOrder contexts)[i].1 = some (evictionOrder contexts)[i].2 := by
    rw [lookup_deleteAll, if_neg hnext]
    exact (mem_evictionOrder.mp (List.getElem_mem hi)).1
  rw [blobSize_deleteAll_eq take_evictionOrder_held nodup_take_evictionOrder
    (fun e he => hplain _ _ (take_evictionOrder_held e he)) hlast]
  exact hgo

end Removal

/-- A blob that fits is left alone. -/
theorem trimSpec_of_fits {contexts : Record} {clientId : List Char} {maxBytes : ℕ}
    (hfits : blobSize clientId contexts ≤ maxBytes) :
    TrimSpec contexts clientId maxBytes [] ⟨contexts, 0, true⟩ where
  held := by simp
  nodup := by simp
  kept := by simp
  evicted := rfl
  evictable := by simp
  messagesFirst := by simp
  ordered := .nil
  oldest := by simp
  fits := ⟨fun _ => hfits, fun _ => rfl⟩
  exhausted := nofun
  minimal := by simp

/-- The entries up to which the estimate evicts are what trimming is to remove. -/
theorem trimSpec_take {contexts : Record} {clientId : List Char} {maxBytes n : ℕ}
    (hn : n ≤ (evictionOrder contexts).length)
    (hstop : n < (evictionOrder contexts).length → blobSize clientId contexts -
      (((evictionOrder contexts).take n).map entryEstimate).sum ≤ maxBytes)
    (hgo : ∀ i < n, maxBytes < blobSize clientId contexts -
      (((evictionOrder contexts).take i).map entryEstimate).sum) :
    TrimSpec contexts clientId maxBytes ((evictionOrder contexts).take n)
      ⟨deleteAll contexts (((evictionOrder contexts).take n).map Prod.fst),
        ((evictionOrder contexts).take n).length,
        decide (blobSize clientId (deleteAll contexts
          (((evictionOrder contexts).take n).map Prod.fst)) ≤ maxBytes)⟩ := by
  have hsize : ∀ {k v}, (deleteAll contexts
        (((evictionOrder contexts).take n).map Prod.fst)).lookup k = some v →
      n < (evictionOrder contexts).length → blobSize clientId (deleteAll contexts
        (((evictionOrder contexts).take n).map Prod.fst)) ≤ maxBytes := fun hk hlt =>
    (blobSize_deleteAll_le take_evictionOrder_held nodup_take_evictionOrder hk).trans (hstop hlt)
  have hlookup := lookup_deleteAll (((evictionOrder contexts).take n).map Prod.fst) contexts
  generalize hremoved : (evictionOrder contexts).take n = removed at *
  generalize deleteAll contexts (removed.map Prod.fst) = kept at *
  subst hremoved
  have hkept : ∀ {k v}, kept.lookup k = some v → contexts.lookup k = some v ∧
      k ∉ ((evictionOrder contexts).take n).map Prod.fst := by
    intro k v hk
    rw [hlookup] at hk
    split_ifs at hk with hmem
    exact ⟨hk, hmem⟩
  have hlater : ∀ {k v}, kept.lookup k = some v → isChannelKey k = false →
      n < (evictionOrder contexts).length ∧ (k, v) ∈ (evictionOrder contexts).drop n := by
    intro k v hk hchannel
    obtain ⟨hheld, hnot⟩ := hkept hk
    exact (mem_take_or_lt hheld hchannel n).resolve_left fun hmem =>
      hnot (List.mem_map_of_mem hmem)
  have hacross : ∀ e ∈ (evictionOrder contexts).take n, ∀ e' ∈ (evictionOrder contexts).drop n,
      (isMsgKey e'.1 = true → isMsgKey e.1 = true) ∧
        (isMsgKey e.1 = isMsgKey e'.1 → e.2 ≤ e'.2) := by
    have hpair := evictionOrder_pairwise contexts
    rw [← List.take_append_drop n (evictionOrder contexts), List.pairwise_append] at hpair
    exact hpair.2.2
  refine ⟨take_evictionOrder_held, nodup_take_evictionOrder, hlookup, rfl, fun e he => ?_,
    fun e he hmsg k hk => ?_, ?_, fun e he k v hk hchannel htier => ?_, by simp,
    fun hfits k v hk => ?_, fun hplain before e hremoved => ?_⟩
  · have hchannel := (mem_evictionOrder.mp (List.mem_of_mem_take he)).2
    rw [isChannelKey] at hchannel
    revert hchannel
    cases isMsgKey e.1 <;> cases isThreadKey e.1 <;> simp
  · by_contra hsome
    obtain ⟨v, hv⟩ := Option.ne_none_iff_exists'.mp hsome
    have hmem := (hlater hv (by simp [isChannelKey, hk])).2
    exact Bool.false_ne_true (hmsg.symm.trans ((hacross e he _ hmem).1 hk))
  · exact ((evictionOrder_pairwise contexts).sublist (List.take_sublist _ _)).imp fun h => h.2
  · exact (hacross e he _ (hlater hk hchannel).2).2 htier
  · by_contra hchannel
    have hlt := (hlater hk (Bool.not_eq_true _ ▸ hchannel)).1
    exact absurd (hsize hk hlt) (by simpa using hfits)
  · have hlength : n = before.length + 1 := by
      have hlen := congrArg List.length hremoved
      simp only [List.length_take, List.length_append, List.length_singleton] at hlen
      omega
    have hbefore : before = (evictionOrder contexts).take before.length := by
      have htake := congrArg (List.take before.length) hremoved
      rw [List.take_left, List.take_take, min_eq_left (by omega)] at htake
      exact htake.symm
    rw [hbefore]
    exact lt_blobSize_deleteAll_take (by omega) hplain (hgo _ (by omega))

/-- Trimming does what it is to do, on any contexts. -/
theorem trimSpec_trimContextsToBudget (contexts : Record) (clientId : List Char) (maxBytes : ℕ) :
    ∃ removed, TrimSpec contexts clientId maxBytes removed
      (trimContextsToBudget contexts clientId maxBytes) := by
  by_cases hfits : blobSize clientId contexts ≤ maxBytes
  · refine ⟨[], ?_⟩
    rw [trimContextsToBudget, if_pos hfits]
    exact trimSpec_of_fits hfits
  · obtain ⟨n, hn, hevict, hstop, hgo⟩ :=
      toEvict_spec maxBytes (evictionOrder contexts) (blobSize clientId contexts)
    have htrim : trimContextsToBudget contexts clientId maxBytes =
        let keys := toEvict maxBytes (blobSize clientId contexts) (evictionOrder contexts)
        ⟨deleteAll contexts keys, keys.length,
          decide (blobSize clientId (deleteAll contexts keys) ≤ maxBytes)⟩ := by
      rw [trimContextsToBudget, if_neg hfits]
      rfl
    refine ⟨(evictionOrder contexts).take n, ?_⟩
    rw [htrim, hevict]
    simpa using trimSpec_take hn hstop hgo

/-! ### Dealing out -/

/-- What the `j`-th slot holds for a key. -/
def slotLookup (slots : List Record) (j : ℕ) (k : List Char) : Option ℕ :=
  slots[j]?.bind fun c => c.lookup k

theorem slotLookup_modify (slots : List Record) (i j : ℕ) (f : Record → Record) (k : List Char) :
    slotLookup (slots.modify i f) j k =
      slots[j]?.bind fun c => (if i = j then f c else c).lookup k := by
  rw [slotLookup, List.getElem?_modify]
  cases slots[j]? <;> rfl

/-- Dealing out an entry touches one key in one slot. -/
theorem slotLookup_modify_assign (slots : List Record) (i j : ℕ) (key k : List Char) (ts : ℕ) :
    slotLookup (slots.modify i fun c => assign c key ts) j k =
      if i = j ∧ k = key ∧ key ≠ protoName ∧ j < slots.length then some ts
      else slotLookup slots j k := by
  rw [slotLookup_modify, slotLookup]
  rcases hslot : slots[j]? with _ | c
  · have hlen : ¬ j < slots.length := not_lt.mpr (List.getElem?_eq_none_iff.mp hslot)
    simp [hlen]
  · have hlen : j < slots.length := (List.getElem?_eq_some_iff.mp hslot).1
    by_cases hij : i = j
    · simp only [hij, ↓reduceIte, Option.bind_some, lookup_assign, hlen, and_true, true_and]
    · simp [hij]

/-- Keys that are not dealt out are left alone. -/
theorem slotLookup_deal_of_not_mem {count : ℕ} {k : List Char} (j : ℕ) :
    ∀ (i : ℕ) (entries : List (List Char × ℕ)) (slots : List Record),
      k ∉ entries.map Prod.fst ∨ k = protoName →
        slotLookup (deal count i entries slots) j k = slotLookup slots j k
  | _, [], _, _ => rfl
  | i, (key, ts) :: entries, slots, h => by
    have hrest : k ∉ entries.map Prod.fst ∨ k = protoName :=
      h.imp_left fun hnot hmem => hnot (List.mem_cons_of_mem _ hmem)
    rw [deal, slotLookup_deal_of_not_mem j (i + 1) entries _ hrest, slotLookup_modify_assign,
      if_neg]
    rintro ⟨-, rfl, hproto, -⟩
    rcases h with hnot | rfl
    · exact hnot (by simp)
    · exact hproto rfl

/-- An entry with a key of its own lands in one slot. -/
theorem slotLookup_deal {count : ℕ} {k : List Char} {v : ℕ} (hproto : k ≠ protoName)
    (hcount : 0 < count) :
    ∀ (i : ℕ) (entries : List (List Char × ℕ)) (slots : List Record), slots.length = count →
      (entries.map Prod.fst).Nodup → (k, v) ∈ entries → (∀ j, slotLookup slots j k = none) →
        ∃ i', ∀ j, slotLookup (deal count i entries slots) j k = if i' = j then some v else none
  | _, [], _, _, _, hmem, _ => absurd hmem List.not_mem_nil
  | i, (key, ts) :: entries, slots, hlen, hnodup, hmem, hnone => by
    rw [List.map_cons, List.nodup_cons] at hnodup
    rw [deal]
    rcases List.mem_cons.mp hmem with heq | hmem
    · obtain ⟨rfl, rfl⟩ := Prod.mk.inj heq
      refine ⟨i % count, fun j => ?_⟩
      have hlt : i % count < slots.length := by
        rw [hlen]
        exact Nat.mod_lt i hcount
      rw [slotLookup_deal_of_not_mem j (i + 1) entries _ (.inl hnodup.1),
        slotLookup_modify_assign, hnone]
      by_cases hj : i % count = j
      · subst hj
        simp [hproto, hlt]
      · simp [hj]
    · have hkey : k ∈ entries.map Prod.fst := List.mem_map_of_mem hmem
      have hne : k ≠ key := fun heq => hnodup.1 (heq ▸ hkey)
      refine slotLookup_deal hproto hcount (i + 1) entries _ (by rw [List.length_modify, hlen])
        hnodup.2 hmem fun j => ?_
      rw [slotLookup_modify_assign, if_neg fun h => hne h.2.1, hnone]

theorem slotLookup_replicate (count j : ℕ) (k : List Char) :
    slotLookup (List.replicate count ∅) j k = none := by
  rw [slotLookup, List.getElem?_replicate]
  split_ifs <;> rfl

/-! ### Growing -/

theorem fits_growSlots_iff (fits : ℕ → Bool) (fuel count : ℕ) :
    fits (growSlots fits fuel count) = true ↔
      ∃ c, count ≤ c ∧ c ≤ count + fuel ∧ fits c = true := by
  induction fuel generalizing count with
  | zero =>
    constructor
    · exact fun h => ⟨count, le_rfl, le_rfl, h⟩
    · rintro ⟨c, hle, hge, hfits⟩
      obtain rfl : c = count := le_antisymm hge hle
      exact hfits
  | succ fuel ih =>
    rw [growSlots]
    split_ifs with hfits
    · exact ⟨fun _ => ⟨count, le_rfl, by omega, hfits⟩, fun _ => hfits⟩
    · rw [ih]
      constructor
      · rintro ⟨c, hle, hge, hc⟩
        exact ⟨c, by omega, by omega, hc⟩
      · rintro ⟨c, hle, hge, hc⟩
        have hne : c ≠ count := fun heq => hfits (heq ▸ hc)
        exact ⟨c, by omega, by omega, hc⟩

theorem growSlots_le (fits : ℕ → Bool) (fuel count : ℕ) :
    growSlots fits fuel count ≤ count + fuel := by
  induction fuel generalizing count with
  | zero => exact le_rfl
  | succ fuel ih =>
    rw [growSlots]
    split_ifs
    · omega
    · have hle := ih (count + 1)
      omega

/-! ### Splitting to the budget -/

/-- What splitting is to do with the channel entries. -/
structure SplitSpec (channelEntries : List (List Char × ℕ)) (clientId : List Char)
    (initialSlotCount maxSlots maxBytes : ℕ) (result : SlotSplitResult) : Prop where
  /-- Each channel entry is in exactly one slot, with its timestamp. -/
  once : ∀ k v, (k, v) ∈ channelEntries →
    ∃ i, ∀ j, slotLookup result.slots j k = if i = j then some v else none
  budget : ∀ c ∈ result.slots, blobSize clientId c ≤ maxBytes
  length : result.slots.length = initialSlotCount + result.extraSlotIds.length
  bound : result.slots.length ≤ max initialSlotCount maxSlots

section Split

variable {channelEntries threadMsgEntries : List (List Char × ℕ)} {clientId : List Char}
  {initialSlotCount maxSlots maxBytes : ℕ} {slotIdGenerator : ℕ → List Char}
  {result : SlotSplitResult}

/-- The channel entries fit into so many slots. -/
def FitsInto (channelEntries : List (List Char × ℕ)) (clientId : List Char) (maxBytes count : ℕ) :
    Prop :=
  ∀ c ∈ distribute channelEntries count, blobSize clientId c ≤ maxBytes

/-- A split succeeds when some permitted number of slots is enough. -/
theorem split_isSome_iff :
    (splitContextsIntoBudgetedSlots channelEntries threadMsgEntries clientId initialSlotCount
      maxSlots maxBytes slotIdGenerator).isSome = true ↔
      ∃ count, initialSlotCount ≤ count ∧ count ≤ max initialSlotCount maxSlots ∧
        FitsInto channelEntries clientId maxBytes count := by
  have hmax : initialSlotCount + (maxSlots - initialSlotCount) = max initialSlotCount maxSlots := by
    omega
  rw [splitContextsIntoBudgetedSlots]
  simp only [FitsInto]
  rw [← hmax]
  have hgrow := fits_growSlots_iff (fun count =>
    (distribute channelEntries count).all fun c => decide (blobSize clientId c ≤ maxBytes))
    (maxSlots - initialSlotCount) initialSlotCount
  simp only [List.all_eq_true, decide_eq_true_eq] at hgrow
  rw [← hgrow]
  split_ifs with hfits
  · simpa using hfits
  · simpa using hfits

/-- What a split that succeeds returns, and that its slots fit. -/
theorem fits_of_split
    (h : splitContextsIntoBudgetedSlots channelEntries threadMsgEntries clientId initialSlotCount
      maxSlots maxBytes slotIdGenerator = some result) :
    ∃ slotCount, initialSlotCount ≤ slotCount ∧ slotCount ≤ max initialSlotCount maxSlots ∧
      FitsInto channelEntries clientId maxBytes slotCount ∧
      result.slots = (distribute channelEntries slotCount).modify 0 fun c =>
        (trimContextsToBudget (assignAll c threadMsgEntries) clientId maxBytes).contexts := by
  simp only [splitContextsIntoBudgetedSlots] at h
  split_ifs at h with hfits
  obtain rfl := Option.some.inj h
  have hle := growSlots_le (fun count =>
    (distribute channelEntries count).all fun c => decide (blobSize clientId c ≤ maxBytes))
    (maxSlots - initialSlotCount) initialSlotCount
  refine ⟨_, le_growSlots _ _ _, hle.trans (by omega), ?_, rfl⟩
  simpa [FitsInto] using hfits

/-- The slots of a distribution hold channel entries only. -/
theorem isChannelKey_of_distribute (hchannel : ∀ e ∈ channelEntries, isChannelKey e.1 = true)
    {count : ℕ} {c : Record} (hc : c ∈ distribute channelEntries count) {k : List Char} {v : ℕ}
    (hk : c.lookup k = some v) : isChannelKey k = true := by
  obtain ⟨i, hi⟩ := List.getElem?_of_mem hc
  have hmem := (of_heldIn_deal 0 channelEntries _ ⟨i, c, hi, hk⟩).resolve_right
    (not_heldIn_replicate count k v)
  exact hchannel _ hmem

/-- A slot that fits with its channel keys still fits after the other entries are added and it is
trimmed. -/
theorem blobSize_trim_le {c : Record} (hc : ∀ k v, c.lookup k = some v → isChannelKey k = true)
    (hother : ∀ e ∈ threadMsgEntries, isChannelKey e.1 = false)
    (hfits : blobSize clientId c ≤ maxBytes) :
    blobSize clientId
      (trimContextsToBudget (assignAll c threadMsgEntries) clientId maxBytes).contexts ≤
        maxBytes := by
  obtain ⟨removed, hspec⟩ :=
    trimSpec_trimContextsToBudget (assignAll c threadMsgEntries) clientId maxBytes
  by_contra hlarge
  have hnot : (trimContextsToBudget (assignAll c threadMsgEntries) clientId
      maxBytes).fitsAfterTrim = false :=
    Bool.eq_false_iff.mpr fun h => hlarge (hspec.fits.mp h)
  -- Only channel keys remain, and these are those of the slot.
  have hsame : ∀ k, (trimContextsToBudget (assignAll c threadMsgEntries) clientId
      maxBytes).contexts.lookup k = c.lookup k := by
    intro k
    by_cases hk : isChannelKey k = true
    · rw [lookup_trim_channel hk]
      refine lookup_assignAll_of_not_mem _ _ fun t ht => ?_
      exact Bool.false_ne_true ((hother _ ht).symm.trans hk)
    · have hleft : c.lookup k = none :=
        Option.eq_none_iff_forall_ne_some.mpr fun v hv => hk (hc k v hv)
      rw [hleft]
      exact Option.eq_none_iff_forall_ne_some.mpr fun v hv => hk (hspec.exhausted hnot k v hv)
  exact hlarge ((blobSize_congr clientId hsame).le.trans hfits)

/-- Adding and trimming leave the channel keys of the slots alone. -/
theorem slotLookup_split (hother : ∀ e ∈ threadMsgEntries, isChannelKey e.1 = false)
    (slots : List Record) (j : ℕ) {k : List Char} (hk : isChannelKey k = true) :
    slotLookup (slots.modify 0 fun c =>
        (trimContextsToBudget (assignAll c threadMsgEntries) clientId maxBytes).contexts) j k =
      slotLookup slots j k := by
  rw [slotLookup_modify, slotLookup]
  congr 1
  funext c
  split_ifs
  · rw [lookup_trim_channel hk]
    refine lookup_assignAll_of_not_mem _ _ fun t ht => ?_
    exact Bool.false_ne_true ((hother _ ht).symm.trans hk)
  · rfl

/-- A split does what it is to do just when no channel entry has the key `__proto__`. -/
theorem splitSpec_iff
    (h : splitContextsIntoBudgetedSlots channelEntries threadMsgEntries clientId initialSlotCount
      maxSlots maxBytes slotIdGenerator = some result)
    (hpos : 0 < initialSlotCount) (hdistinct : (channelEntries.map Prod.fst).Nodup)
    (hchannel : ∀ e ∈ channelEntries, isChannelKey e.1 = true)
    (hother : ∀ e ∈ threadMsgEntries, isChannelKey e.1 = false) :
    SplitSpec channelEntries clientId initialSlotCount maxSlots maxBytes result ↔
      protoName ∉ channelEntries.map Prod.fst := by
  obtain ⟨slotCount, hle, hmax, hfits, hslots⟩ := fits_of_split h
  constructor
  · intro hspec hmem
    obtain ⟨⟨k, v⟩, hin, rfl⟩ := List.mem_map.mp hmem
    obtain ⟨i, hi⟩ := hspec.once _ v hin
    have hlost : slotLookup (distribute channelEntries slotCount) i protoName = none :=
      (slotLookup_deal_of_not_mem i 0 channelEntries _ (.inr rfl)).trans
        (slotLookup_replicate _ _ _)
    have hfound := hi i
    rw [hslots, slotLookup_split hother _ _ (hchannel _ hin), if_pos rfl] at hfound
    exact nomatch hlost.symm.trans hfound
  · intro hproto
    refine ⟨fun k v hmem => ?_, fun c hc => ?_, length_split h, ?_⟩
    · have hne : k ≠ protoName := fun heq => hproto (heq ▸ List.mem_map_of_mem hmem)
      obtain ⟨i, hi⟩ := slotLookup_deal hne (hpos.trans_le hle) 0 channelEntries
        (List.replicate slotCount ∅) List.length_replicate hdistinct hmem
        fun j => slotLookup_replicate _ _ _
      refine ⟨i, fun j => ?_⟩
      rw [hslots, slotLookup_split hother _ _ (hchannel _ hmem)]
      exact hi j
    · rw [hslots] at hc
      obtain ⟨j, hj⟩ := List.getElem?_of_mem hc
      rw [List.getElem?_modify] at hj
      obtain ⟨c₀, hc₀, heq⟩ := Option.map_eq_some_iff.mp hj
      have hin := List.mem_of_getElem? hc₀
      split_ifs at heq
      · rw [← heq]
        exact blobSize_trim_le (fun k v => isChannelKey_of_distribute hchannel hin) hother
          (hfits c₀ hin)
      · rw [← heq]
        exact hfits c₀ hin
    · rw [hslots, List.length_modify, distribute, length_deal, List.length_replicate]
      exact hmax

end Split

/-- Trimming evicts what it should, and splitting puts every channel entry into one slot within the
budget, just when no channel entry has the key `__proto__` or no permitted number of slots is
enough. -/
theorem trim_and_split (contexts : Record) (channelEntries threadMsgEntries : List (List Char × ℕ))
    (clientId : List Char) (initialSlotCount maxSlots maxBytes : ℕ)
    (slotIdGenerator : ℕ → List Char) (hpos : 1 ≤ initialSlotCount)
    (hdistinct : (channelEntries.map Prod.fst).Nodup)
    (hchannel : ∀ e ∈ channelEntries, isChannelKey e.1 = true)
    (hother : ∀ e ∈ threadMsgEntries, isChannelKey e.1 = false) :
    ((∃ removed, TrimSpec contexts clientId maxBytes removed
        (trimContextsToBudget contexts clientId maxBytes)) ∧
      ∀ result, splitContextsIntoBudgetedSlots channelEntries threadMsgEntries clientId
          initialSlotCount maxSlots maxBytes slotIdGenerator = some result →
        SplitSpec channelEntries clientId initialSlotCount maxSlots maxBytes result) ↔
      protoName ∉ channelEntries.map Prod.fst ∨
        ∀ count, initialSlotCount ≤ count → count ≤ max initialSlotCount maxSlots →
          ∃ c ∈ distribute channelEntries count, maxBytes < blobSize clientId c := by
  rw [and_iff_right (trimSpec_trimContextsToBudget contexts clientId maxBytes)]
  rcases hresult : splitContextsIntoBudgetedSlots channelEntries threadMsgEntries clientId
    initialSlotCount maxSlots maxBytes slotIdGenerator with _ | result
  · refine ⟨fun _ => .inr fun count hle hmax => ?_, fun _ => nofun⟩
    by_contra hfits
    push Not at hfits
    have hsome : (splitContextsIntoBudgetedSlots channelEntries threadMsgEntries clientId
        initialSlotCount maxSlots maxBytes slotIdGenerator).isSome = true :=
      split_isSome_iff.mpr ⟨count, hle, hmax, hfits⟩
    rw [hresult] at hsome
    cases hsome
  · have hspec := splitSpec_iff hresult hpos hdistinct hchannel hother
    have hfits := fits_of_split hresult
    constructor
    · exact fun hall => .inl (hspec.mp (hall result rfl))
    · rintro (hproto | hnone) result' heq
      · obtain rfl := Option.some.inj heq
        exact hspec.mpr hproto
      · obtain ⟨count, hle, hmax, hfit, -⟩ := hfits
        obtain ⟨c, hc, hlarge⟩ := hnone count hle hmax
        exact absurd (hfit c hc) (not_le.mpr hlarge)

/-- Two channels and a message over one slot or more: every channel is in one slot. -/
theorem trim_and_split_twoChannels :
    (∃ removed, TrimSpec ∅ "desktop".toList readStateMaxPlaintextBytes removed
        (trimContextsToBudget ∅ "desktop".toList readStateMaxPlaintextBytes)) ∧
      ∀ result, splitContextsIntoBudgetedSlots [("a".toList, 1), ("b".toList, 2)]
          [("msg:m".toList, 3)] "desktop".toList 1 readStateMaxSlots readStateMaxPlaintextBytes
          (fun _ => []) = some result →
        SplitSpec [("a".toList, 1), ("b".toList, 2)] "desktop".toList 1 readStateMaxSlots
          readStateMaxPlaintextBytes result :=
  (trim_and_split ∅ [("a".toList, 1), ("b".toList, 2)] [("msg:m".toList, 3)] "desktop".toList 1
    readStateMaxSlots readStateMaxPlaintextBytes (fun _ => []) le_rfl (by decide) (by decide)
    (by decide)).mpr (.inl (by decide))

/-- A channel with the key `__proto__` is in no slot. -/
theorem proto_channel_lost :
    ∃ result, splitContextsIntoBudgetedSlots [(protoName, 5)] [] "desktop".toList 1
        readStateMaxSlots readStateMaxPlaintextBytes (fun _ => []) = some result ∧
      ¬ SplitSpec [(protoName, 5)] "desktop".toList 1 readStateMaxSlots readStateMaxPlaintextBytes
        result := by
  have hempty : blobSize "desktop".toList ∅ ≤ readStateMaxPlaintextBytes := by decide +kernel
  have hsome : (splitContextsIntoBudgetedSlots [(protoName, 5)] [] "desktop".toList 1
      readStateMaxSlots readStateMaxPlaintextBytes (fun _ => [])).isSome = true := by
    refine split_isSome_iff.mpr ⟨1, le_rfl, le_max_left _ _, fun c hc => ?_⟩
    have hslots : distribute [(protoName, 5)] 1 = [∅] := rfl
    rw [hslots, List.mem_singleton] at hc
    rw [hc]
    exact hempty
  obtain ⟨result, hresult⟩ := Option.isSome_iff_exists.mp hsome
  refine ⟨result, hresult, fun hspec => ?_⟩
  have hproto := (splitSpec_iff hresult one_pos (by decide) (by decide) (by decide)).mp hspec
  exact hproto (by simp)

end Buzz.Desktop.ReadState
