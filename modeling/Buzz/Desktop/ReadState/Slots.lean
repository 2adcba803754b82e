import Buzz.Desktop.ReadState.Format

/-!
# Fitting contexts into slots

A blob may take at most `READ_STATE_MAX_PLAINTEXT_BYTES` bytes. `trimContextsToBudget` of
`readStateManager.ts` evicts the oldest `msg:` entries and then the oldest `thread:` entries of a
blob that is too large; the other keys, those of channels, are never evicted. Where the channel keys
alone are too large they are dealt out over several slots (`splitContextsIntoBudgetedSlots`), the
number of slots growing until every slot fits or there are `READ_STATE_MAX_SLOTS` of them.

## Main definitions

* `isChannelKey`, `trimContextsToBudget`, `distribute`, `splitContextsIntoBudgetedSlots`.

## Main results

* `lookup_trim_channel`, `of_lookup_trim`: trimming keeps the channel keys and adds nothing.
* `heldIn_split`, `of_heldIn_split`: every channel key lands in a slot, and the slots hold
  nothing but the entries they were given.
-/

namespace Buzz.Desktop.ReadState

open Buzz.Library

/-- `READ_STATE_MAX_PLAINTEXT_BYTES`. -/
def readStateMaxPlaintextBytes : ℕ := 32768

/-- `READ_STATE_MAX_SLOTS`. -/
def readStateMaxSlots : ℕ := 8

/-- A key of the form `msg:…`. -/
def isMsgKey (key : List Char) : Bool := "msg:".toList.isPrefixOf key

/-- A key of the form `thread:…`. -/
def isThreadKey (key : List Char) : Bool := "thread:".toList.isPrefixOf key

/-- A key that is neither a message's nor a thread's. -/
def isChannelKey (key : List Char) : Bool := !isMsgKey key && !isThreadKey key

/-! ### Trimming -/

/-- The keys to evict, in turn, until the estimate is within the budget. The estimate of an entry
is its quoted key, colon, digits and comma. -/
def toEvict (maxBytes : ℕ) : ℕ → List (List Char × ℕ) → List (List Char)
  | _, [] => []
  | currentBytes, (key, ts) :: entries =>
    if currentBytes ≤ maxBytes then []
    else key :: toEvict maxBytes
      (currentBytes - (utf16Length key + 3 + (Nat.toDigits 10 ts).length + 1)) entries

/-- `delete contexts[key]` for each key in turn. -/
def deleteAll (contexts : Record) (keys : List (List Char)) : Record :=
  keys.foldl (fun c key => c.erase key) contexts

/-- The result of `trimContextsToBudget`, with the contexts as it leaves them. -/
structure TrimResult where
  contexts : Record
  evicted : ℕ
  fitsAfterTrim : Bool

/-- Evict message entries and then thread entries, oldest first, until the blob fits. The estimate
decides what is evicted; whether the rest fits is checked on the text itself. -/
def trimContextsToBudget (contexts : Record) (clientId : List Char) (maxBytes : ℕ) : TrimResult :=
  let currentBytes := blobSize clientId contexts
  if currentBytes ≤ maxBytes then ⟨contexts, 0, true⟩
  else
    let entries := objectEntries contexts
    let msgEntries := sortByKey (·.2) (entries.filter fun e => isMsgKey e.1)
    let threadEntries := sortByKey (·.2)
      (entries.filter fun e => !isMsgKey e.1 && isThreadKey e.1)
    let evict := toEvict maxBytes currentBytes (msgEntries ++ threadEntries)
    let kept := deleteAll contexts evict
    ⟨kept, evict.length, decide (blobSize clientId kept ≤ maxBytes)⟩

theorem mem_of_mem_toEvict {maxBytes : ℕ} {key : List Char} : ∀ (entries : List (List Char × ℕ))
    (currentBytes : ℕ), key ∈ toEvict maxBytes currentBytes entries →
      key ∈ entries.map Prod.fst
  | [], _, h => by cases h
  | (k, ts) :: entries, currentBytes, h => by
    rw [toEvict] at h
    split_ifs at h
    · cases h
    · rcases List.mem_cons.mp h with rfl | hmem
      · exact List.mem_cons_self
      · exact List.mem_cons_of_mem _ (mem_of_mem_toEvict entries _ hmem)

theorem lookup_deleteAll (keys : List (List Char)) (contexts : Record) (k : List Char) :
    (deleteAll contexts keys).lookup k = if k ∈ keys then none else contexts.lookup k := by
  induction keys generalizing contexts with
  | nil => simp [deleteAll]
  | cons key keys ih =>
    have hstep : deleteAll contexts (key :: keys) = deleteAll (contexts.erase key) keys := rfl
    rw [hstep, ih, HashMap.lookup_erase_eq]
    by_cases hk : k ∈ keys
    · rw [if_pos hk, if_pos (List.mem_cons_of_mem _ hk)]
    · rw [if_neg hk]
      simp only [List.mem_cons, hk, or_false]

/-- Trimming adds nothing. -/
theorem of_lookup_trim {contexts : Record} {clientId : List Char} {maxBytes : ℕ} {k : List Char}
    {v : ℕ} (h : (trimContextsToBudget contexts clientId maxBytes).contexts.lookup k = some v) :
    contexts.lookup k = some v := by
  rw [trimContextsToBudget] at h
  split_ifs at h
  · exact h
  · rw [lookup_deleteAll] at h
    split_ifs at h
    exact h

/-- Trimming keeps the channel keys. -/
theorem lookup_trim_channel {k : List Char} (hk : isChannelKey k = true) (contexts : Record)
    (clientId : List Char) (maxBytes : ℕ) :
    (trimContextsToBudget contexts clientId maxBytes).contexts.lookup k = contexts.lookup k := by
  rw [trimContextsToBudget]
  split_ifs
  · rfl
  · rw [lookup_deleteAll, if_neg]
    intro hmem
    obtain ⟨⟨a, x⟩, hin, rfl⟩ := List.mem_map.mp (mem_of_mem_toEvict _ _ hmem)
    rw [List.mem_append, (sortByKey_perm _ _).mem_iff, (sortByKey_perm _ _).mem_iff,
      List.mem_filter, List.mem_filter] at hin
    simp only [isChannelKey, Bool.and_eq_true, Bool.not_eq_true'] at hk
    rcases hin with ⟨-, hmsg⟩ | ⟨-, hthread⟩
    · exact Bool.false_ne_true (hk.1.symm.trans hmsg)
    · rw [hk.1, hk.2] at hthread
      cases hthread

/-! ### Splitting -/

/-- Deal entries out over the slots in turn, the next one being the `i`-th:
`slotContexts[i % count][key] = ts`. -/
def deal (count : ℕ) : ℕ → List (List Char × ℕ) → List Record → List Record
  | _, [], slots => slots
  | i, (key, ts) :: entries, slots =>
    deal count (i + 1) entries (slots.modify (i % count) fun c => assign c key ts)

/-- Deal entries out over `count` empty slots. -/
def distribute (entries : List (List Char × ℕ)) (count : ℕ) : List Record :=
  deal count 0 entries (List.replicate count ∅)

/-- The number of slots, grown while they do not fit and while there may be more. -/
def growSlots (fits : ℕ → Bool) : ℕ → ℕ → ℕ
  | 0, count => count
  | fuel + 1, count => if fits count then count else growSlots fits fuel (count + 1)

/-- The result of a split: the contexts of each slot, and the ids of the slots that were added. -/
structure SlotSplitResult where
  slots : List Record
  extraSlotIds : List (List Char)

/-- Deal the channel entries out over `initialSlotCount` slots or more, until every slot fits, and
put the thread and message entries into the first slot, trimmed to the budget. The `i`-th new slot
id is `slotIdGenerator i`. -/
def splitContextsIntoBudgetedSlots (channelEntries threadMsgEntries : List (List Char × ℕ))
    (clientId : List Char) (initialSlotCount maxSlots maxBytes : ℕ)
    (slotIdGenerator : ℕ → List Char) : Option SlotSplitResult :=
  let fits := fun count =>
    (distribute channelEntries count).all fun c => decide (blobSize clientId c ≤ maxBytes)
  let slotCount := growSlots fits (maxSlots - initialSlotCount) initialSlotCount
  if fits slotCount then
    some
      { slots := (distribute channelEntries slotCount).modify 0 fun c =>
          (trimContextsToBudget (assignAll c threadMsgEntries) clientId maxBytes).contexts
        extraSlotIds := (List.range (slotCount - initialSlotCount)).map slotIdGenerator }
  else none

/-- Some slot holds the timestamp `v` for the key `k`. -/
def HeldIn (slots : List Record) (k : List Char) (v : ℕ) : Prop :=
  ∃ (i : ℕ) (c : Record), slots[i]? = some c ∧ c.lookup k = some v

theorem heldIn_modify {slots : List Record} {k : List Char} {v : ℕ} (h : HeldIn slots k v) (j : ℕ)
    {f : Record → Record} (hf : ∀ c : Record, c.lookup k = some v → (f c).lookup k = some v) :
    HeldIn (slots.modify j f) k v := by
  obtain ⟨i, c, hi, hc⟩ := h
  by_cases hij : j = i
  · exact ⟨i, f c, by simp [hi, hij], hf c hc⟩
  · exact ⟨i, c, by simp [hi, hij], hc⟩

theorem of_heldIn_modify {slots : List Record} {k : List Char} {v : ℕ} {j : ℕ}
    {f : Record → Record} (h : HeldIn (slots.modify j f) k v) :
    HeldIn slots k v ∨ ∃ c, slots[j]? = some c ∧ (f c).lookup k = some v := by
  obtain ⟨i, c, hi, hc⟩ := h
  rw [List.getElem?_modify] at hi
  obtain ⟨c₀, hc₀, rfl⟩ := Option.map_eq_some_iff.mp hi
  split_ifs at hc with hij
  · exact .inr ⟨c₀, hij ▸ hc₀, hc⟩
  · exact .inl ⟨i, c₀, hc₀, hc⟩

@[simp]
theorem length_deal (count : ℕ) : ∀ (i : ℕ) (entries : List (List Char × ℕ)) (slots : List Record),
    (deal count i entries slots).length = slots.length
  | _, [], _ => rfl
  | i, (key, ts) :: entries, slots => by
    rw [deal, length_deal count (i + 1) entries, List.length_modify]

/-- Dealing out puts every entry into a slot. A later entry only overwrites one for its own key. -/
theorem heldIn_deal {count : ℕ} {k : List Char} {v : ℕ} (hproto : k ≠ protoName)
    (hcount : 0 < count) : ∀ (i : ℕ) (entries : List (List Char × ℕ)) (slots : List Record),
      slots.length = count → (∀ t, (k, t) ∈ entries → t = v) →
        (k, v) ∈ entries ∨ HeldIn slots k v → HeldIn (deal count i entries slots) k v
  | _, [], _, _, _, h => h.resolve_left List.not_mem_nil
  | i, (key, ts) :: entries, slots, hlen, huniq, h => by
    refine heldIn_deal hproto hcount (i + 1) entries _ (by rw [List.length_modify, hlen])
      (fun t ht => huniq t (List.mem_cons_of_mem _ ht)) ?_
    rcases h with hmem | hheld
    · rcases List.mem_cons.mp hmem with heq | hmem
      · obtain ⟨rfl, rfl⟩ := Prod.mk.inj heq
        have hlt : i % count < slots.length := by
          rw [hlen]
          exact Nat.mod_lt i hcount
        refine .inr ⟨i % count, assign slots[i % count] k v, ?_, ?_⟩
        · simp [List.getElem?_eq_getElem hlt]
        · rw [lookup_assign, if_pos ⟨rfl, hproto⟩]
      · exact .inl hmem
    · refine .inr (heldIn_modify hheld _ fun c hc => ?_)
      rw [lookup_assign]
      split_ifs with hk
      · rw [huniq ts (hk.1 ▸ List.mem_cons_self)]
      · exact hc

/-- Dealing out puts nothing into the slots but the entries. -/
theorem of_heldIn_deal {count : ℕ} {k : List Char} {v : ℕ} :
    ∀ (i : ℕ) (entries : List (List Char × ℕ)) (slots : List Record),
      HeldIn (deal count i entries slots) k v → (k, v) ∈ entries ∨ HeldIn slots k v
  | _, [], _, h => .inr h
  | i, (key, ts) :: entries, slots, h => by
    rcases of_heldIn_deal (i + 1) entries _ h with hmem | hheld
    · exact .inl (List.mem_cons_of_mem _ hmem)
    · rcases of_heldIn_modify hheld with hheld | ⟨c, hc, hlook⟩
      · exact .inr hheld
      · rw [lookup_assign] at hlook
        split_ifs at hlook with hk
        · obtain ⟨rfl, -⟩ := hk
          obtain rfl := Option.some.inj hlook
          exact .inl List.mem_cons_self
        · exact .inr ⟨_, c, hc, hlook⟩

theorem not_heldIn_replicate (count : ℕ) (k : List Char) (v : ℕ) :
    ¬ HeldIn (List.replicate count ∅) k v := by
  rintro ⟨i, c, hi, hc⟩
  obtain rfl := List.eq_of_mem_replicate (List.mem_of_getElem? hi)
  cases hc

theorem le_growSlots (fits : ℕ → Bool) : ∀ fuel count, count ≤ growSlots fits fuel count
  | 0, _ => le_rfl
  | fuel + 1, count => by
    rw [growSlots]
    split_ifs
    · exact le_rfl
    · exact (Nat.le_succ count).trans (le_growSlots fits fuel (count + 1))

section Split

variable {channelEntries threadMsgEntries : List (List Char × ℕ)} {clientId : List Char}
  {initialSlotCount maxSlots maxBytes : ℕ} {slotIdGenerator : ℕ → List Char}
  {result : SlotSplitResult}

/-- What a split that succeeds returns. -/
theorem split_eq_some
    (h : splitContextsIntoBudgetedSlots channelEntries threadMsgEntries clientId initialSlotCount
      maxSlots maxBytes slotIdGenerator = some result) :
    ∃ slotCount, initialSlotCount ≤ slotCount ∧
      result.slots = ((distribute channelEntries slotCount).modify 0 fun c =>
        (trimContextsToBudget (assignAll c threadMsgEntries) clientId maxBytes).contexts) ∧
      result.extraSlotIds =
        (List.range (slotCount - initialSlotCount)).map slotIdGenerator := by
  simp only [splitContextsIntoBudgetedSlots] at h
  split_ifs at h
  obtain rfl := Option.some.inj h
  exact ⟨_, le_growSlots _ _ _, rfl, rfl⟩

/-- There is a slot for each slot id. -/
theorem length_split
    (h : splitContextsIntoBudgetedSlots channelEntries threadMsgEntries clientId initialSlotCount
      maxSlots maxBytes slotIdGenerator = some result) :
    result.slots.length = initialSlotCount + result.extraSlotIds.length := by
  obtain ⟨slotCount, hle, hslots, hextra⟩ := split_eq_some h
  rw [hslots, hextra, List.length_modify, distribute, length_deal, List.length_replicate,
    List.length_map, List.length_range, Nat.add_sub_cancel' hle]

/-- Every channel entry lands in a slot. -/
theorem heldIn_split
    (h : splitContextsIntoBudgetedSlots channelEntries threadMsgEntries clientId initialSlotCount
      maxSlots maxBytes slotIdGenerator = some result)
    (hpos : 0 < initialSlotCount) {k : List Char} {v : ℕ} (hchannel : isChannelKey k = true)
    (hproto : k ≠ protoName) (hmem : (k, v) ∈ channelEntries)
    (huniq : ∀ t, (k, t) ∈ channelEntries → t = v) (hother : ∀ t, (k, t) ∉ threadMsgEntries) :
    HeldIn result.slots k v := by
  obtain ⟨slotCount, hle, hslots, -⟩ := split_eq_some h
  rw [hslots]
  refine heldIn_modify ?_ 0 fun c hc => ?_
  · exact heldIn_deal hproto (hpos.trans_le hle) 0 channelEntries _ List.length_replicate huniq
      (.inl hmem)
  · rw [lookup_trim_channel hchannel, lookup_assignAll_of_not_mem _ _ hother, hc]

/-- The slots hold nothing but the entries they were given. -/
theorem of_heldIn_split
    (h : splitContextsIntoBudgetedSlots channelEntries threadMsgEntries clientId initialSlotCount
      maxSlots maxBytes slotIdGenerator = some result)
    {k : List Char} {v : ℕ} (hheld : HeldIn result.slots k v) :
    (k, v) ∈ channelEntries ∨ (k, v) ∈ threadMsgEntries := by
  obtain ⟨slotCount, -, hslots, -⟩ := split_eq_some h
  have hdealt : HeldIn (distribute channelEntries slotCount) k v → (k, v) ∈ channelEntries :=
    fun hd => (of_heldIn_deal 0 channelEntries _ hd).resolve_right (not_heldIn_replicate _ k v)
  rw [hslots] at hheld
  rcases of_heldIn_modify hheld with hd | ⟨c, hc, hlook⟩
  · exact .inl (hdealt hd)
  · rcases of_lookup_assignAll _ _ (of_lookup_trim hlook) with hmem | ⟨hlook, -⟩
    · exact .inr hmem
    · exact .inl (hdealt ⟨0, c, hc, hlook⟩)

end Split

end Buzz.Desktop.ReadState
