import Buzz.Db.Members.Store

/-!
# What every commit of the membership store guarantees

A row changes only under its lock. A community that is owned stays so. As long as no owner is
bootstrapped, the communities of one who becomes an owner are counted under his advisory lock.

## Main definitions

* `Tables.Owned`, `Tables.SoleOwner`, `Tables.Sound`.
* `Commits`: what every commit guarantees; `strict` where no owner is bootstrapped.

## Main results

* `commits_setMember`, `commits_insertCommunity`: what one write guarantees.
* `Relies.member_eq`, `Relies.ownedBy_le` and the like: what others may not do against locks.
-/

namespace Buzz.Db.Members

open Buzz.Core (Uuid)
open Buzz.Db.Deletion (Community)
open Buzz.Library Buzz.Library.Transactions

/-! ### Rows -/

namespace Tables

variable {t t' : Tables} {k k' : MemberKey} {c : Uuid} {pubkey : String}

theorem members_setMember (o : Option RelayMember) :
    (t.setMember k o).members.lookup k' = if k' = k then o else t.members.lookup k' := by
  cases o with
  | some r => exact HashMap.lookup_insert_eq _ _ _ _
  | none => exact HashMap.lookup_erase_eq _ _ _

@[simp] theorem communities_setMember (o : Option RelayMember) :
    (t.setMember k o).communities = t.communities := by cases o <;> rfl

theorem lookup_insertCommunity {i j : Uuid} (row : Community) :
    (t.insertCommunity i row).communities.lookup j =
      if j = i then some row else t.communities.lookup j := HashMap.lookup_insert_eq _ _ _ _

theorem role_setMember (o : Option RelayMember) :
    (t.setMember k o).role k' = if k' = k then o.map (·.role) else t.role k' := by
  rw [role, members_setMember]
  by_cases hk : k' = k
  · rw [if_pos hk, if_pos hk]
  · rw [if_neg hk, if_neg hk]
    rfl

theorem role_congr (h : t'.members.lookup k = t.members.lookup k) : t'.role k = t.role k :=
  congrArg (Option.map RelayMember.role) h

theorem role_eq {o : Option RelayMember} (h : t.members.lookup k = o) :
    t.role k = o.map (·.role) := congrArg (Option.map RelayMember.role) h

theorem role_eq_some_iff {role : Role} :
    t.role k = some role ↔ ∃ r, t.members.lookup k = some r ∧ r.role = role :=
  Option.map_eq_some_iff

theorem mem_ownersOf : k ∈ t.ownersOf c ↔ k.1 = c ∧ t.role k = some .owner := by
  rw [ownersOf, List.mem_map, role_eq_some_iff]
  constructor
  · rintro ⟨⟨k', r⟩, hmem, rfl⟩
    obtain ⟨hentry, hp⟩ := List.mem_filter.mp hmem
    simp only [Bool.and_eq_true, decide_eq_true_eq] at hp
    exact ⟨hp.1, r, HashMap.mem_entries_iff.mp hentry, hp.2⟩
  · rintro ⟨hc, r, hr, hrole⟩
    exact ⟨⟨k, r⟩, List.mem_filter.mpr ⟨HashMap.mem_entries_iff.mpr hr, by simp [hc, hrole]⟩, rfl⟩

/-! ### Owners -/

/-- The community has an owner. -/
def Owned (t : Tables) (c : Uuid) : Prop := ∃ pubkey, t.role (c, pubkey) = some .owner

/-- The community has one owner. -/
def SoleOwner (t : Tables) (c : Uuid) (pubkey : String) : Prop :=
  ∀ pubkey', t.role (c, pubkey') = some .owner ↔ pubkey' = pubkey

theorem SoleOwner.role (h : t.SoleOwner c pubkey) : t.role (c, pubkey) = some .owner :=
  (h pubkey).mpr rfl

/-- A count after a write, of all rows but the written one and of that one. -/
theorem ownedBy_setMember_le (o : Option RelayMember) (pubkey : String) :
    (t.setMember k o).ownedBy pubkey ≤
      Table.countWhere (fun k' r => (k'.2 = pubkey && r.role = .owner) && decide (k' ≠ k))
        t.members + if k.2 = pubkey ∧ o.map (·.role) = some .owner then 1 else 0 := by
  cases o with
  | some r =>
    refine (Table.countWhere_insert _ _ _ _).le.trans (Nat.add_le_add_left (le_of_eq ?_) _)
    simp
  | none =>
    refine (Table.countWhere_erase _ _ _).le.trans ?_
    simp

theorem ownedBy_of_owner (hk : t.role k = some .owner) (pubkey : String) : t.ownedBy pubkey =
    Table.countWhere (fun k' r => (k'.2 = pubkey && r.role = .owner) && decide (k' ≠ k))
      t.members + if k.2 = pubkey then 1 else 0 := by
  obtain ⟨r, hr, hrole⟩ := role_eq_some_iff.mp hk
  refine (Table.countWhere_of_lookup _ hr).trans ?_
  simp [hrole]

theorem countWhere_others_le (k : MemberKey) (pubkey : String) :
    Table.countWhere (fun k' r => (k'.2 = pubkey && r.role = .owner) && decide (k' ≠ k))
      t.members ≤ t.ownedBy pubkey := by
  refine Table.countWhere_le fun k' r _ hp => ?_
  rw [Bool.and_eq_true] at hp
  exact hp.1

/-- A member who is made no owner, or was one, counts no more than before. -/
theorem ownedBy_setMember_of_not_gained {o : Option RelayMember}
    (h : o.map (·.role) = some .owner → t.role k = some .owner) (pubkey : String) :
    (t.setMember k o).ownedBy pubkey ≤ t.ownedBy pubkey := by
  refine (ownedBy_setMember_le o pubkey).trans ?_
  by_cases ho : o.map (·.role) = some .owner
  · rw [ownedBy_of_owner (h ho) pubkey]
    simp [ho]
  · rw [if_neg fun hand => ho hand.2]
    exact countWhere_others_le k pubkey

theorem ownedBy_setMember_le_succ (o : Option RelayMember) :
    (t.setMember k o).ownedBy k.2 ≤ t.ownedBy k.2 + 1 := by
  refine (ownedBy_setMember_le o k.2).trans (Nat.add_le_add (countWhere_others_le k k.2) ?_)
  split_ifs <;> simp

theorem ownedBy_setMember_of_ne (o : Option RelayMember) (h : k.2 ≠ pubkey) :
    (t.setMember k o).ownedBy pubkey ≤ t.ownedBy pubkey := by
  refine (ownedBy_setMember_le o pubkey).trans ?_
  rw [if_neg fun hand => h hand.1]
  exact countWhere_others_le k pubkey

/-- A member is of a community, at all times. -/
def Sound (t : Tables) : Prop :=
  ∀ k, (t.members.lookup k).isSome = true → (t.communities.lookup k.1).isSome = true

theorem Sound.role_eq_none (ht : t.Sound) (hc : t.communities.lookup k.1 = none) :
    t.role k = none := by
  by_contra hrole
  have hsome := ht k (by simpa [role, Option.isSome_iff_ne_none] using hrole)
  rw [hc] at hsome
  cases hsome

end Tables

/-! ### What every commit guarantees -/

/-- What every commit guarantees. Where it is strict, no owner is bootstrapped. -/
structure Commits (strict : Prop) (limit : ℕ) (held : Held LockKey) (t t' : Tables) : Prop where
  member : Guarded LockKey.member (fun t k => t.members.lookup k) held t t'
  community : Guarded LockKey.community (fun t i => t.communities.lookup i) held t t'
  founded : ∀ i, (t.communities.lookup i).isSome = true → (t'.communities.lookup i).isSome = true
  owned : ∀ c, t.Owned c → t'.Owned c
  counted : strict → ∀ pubkey, t'.ownedBy pubkey ≤ t.ownedBy pubkey ∨
    t'.ownedBy pubkey ≤ limit ∧ (.ownerCount (ownerCountAdvisoryLockKey pubkey), .exclusive) ∈ held
  sound : t.Sound → t'.Sound

variable {strict : Prop} {limit : ℕ} {held : Held LockKey} {t t' : Tables} {k : MemberKey}

theorem composable_commits : Composable (Commits strict limit) where
  refl held t :=
    ⟨.refl held t, .refl held t, fun _ hi => hi, fun _ hc => hc,
      fun _ _ => .inl (Nat.le_refl _), fun hs => hs⟩
  trans h h' :=
    { member := h.member.trans h'.member
      community := h.community.trans h'.community
      founded := fun i hi => h'.founded i (h.founded i hi)
      owned := fun c hc => h'.owned c (h.owned c hc)
      counted := fun hstrict pubkey => by
        rcases h'.counted hstrict pubkey with hle | hlimit
        · rcases h.counted hstrict pubkey with hle' | hlimit
          · exact .inl (hle.trans hle')
          · exact .inr ⟨hle.trans hlimit.1, hlimit.2⟩
        · exact .inr hlimit
      sound := fun hs => h'.sound (h.sound hs) }
  mono hsubset h :=
    { h with
      member := h.member.mono hsubset
      community := h.community.mono hsubset
      counted := fun hstrict pubkey => (h.counted hstrict pubkey).imp_right fun hand =>
        ⟨hand.1, hsubset hand.2⟩ }

/-! ### Writes -/

/-- Nobody else may make him an owner, and he has not come to the limit. -/
structure Tables.Promotes (t : Tables) (limit : ℕ) (held : Held LockKey) (pubkey : String) :
    Prop where
  lock : (.ownerCount (ownerCountAdvisoryLockKey pubkey), .exclusive) ∈ held
  count : t.ownedBy pubkey < limit

theorem commits_setMember {o : Option RelayMember} (hlock : (.member k, .exclusive) ∈ held)
    (hcommunity : (t.members.lookup k).isSome = true ∨ (t.communities.lookup k.1).isSome = true)
    (hlost : t.role k = some .owner → o.map (·.role) = some .owner ∨
      ∃ k' : MemberKey, k' ≠ k ∧ k'.1 = k.1 ∧ t.role k' = some .owner)
    (hgained : strict → o.map (·.role) = some .owner → t.role k = some .owner ∨
      t.Promotes limit held k.2) : Commits strict limit held t (t.setMember k o) where
  member k' := by
    by_cases hk : k' = k
    · exact .inr (hk ▸ hlock)
    · exact .inl ((Tables.members_setMember o).trans (if_neg hk))
  community i := .inl (congrArg (AList.lookup i) (Tables.communities_setMember o))
  founded i hi := by rwa [Tables.communities_setMember]
  owned c hc := by
    obtain ⟨pubkey, hrole⟩ := hc
    by_cases hk : (c, pubkey) = k
    · rcases hlost (hk ▸ hrole) with ho | ⟨⟨c', pubkey'⟩, hne, hc', hrole'⟩
      · exact ⟨pubkey, by rw [Tables.role_setMember, if_pos hk, ho]⟩
      · obtain rfl : c' = c := hc'.trans (congrArg Prod.fst hk).symm
        exact ⟨pubkey', by rw [Tables.role_setMember, if_neg hne, hrole']⟩
    · exact ⟨pubkey, by rw [Tables.role_setMember, if_neg hk, hrole]⟩
  counted hstrict pubkey := by
    by_cases ho : o.map (·.role) = some .owner
    · rcases hgained hstrict ho with hk | hpromotes
      · exact .inl (Tables.ownedBy_setMember_of_not_gained (fun _ => hk) pubkey)
      · by_cases heq : k.2 = pubkey
        · subst heq
          have hle := Tables.ownedBy_setMember_le_succ (t := t) (k := k) o
          have hcount := hpromotes.count
          exact .inr ⟨by omega, hpromotes.lock⟩
        · exact .inl (Tables.ownedBy_setMember_of_ne o heq)
    · exact .inl (Tables.ownedBy_setMember_of_not_gained (fun h => absurd h ho) pubkey)
  sound hs k' hk' := by
    rw [Tables.communities_setMember]
    by_cases hk : k' = k
    · exact hk ▸ hcommunity.elim (hs k) id
    · exact hs k' (by rwa [Tables.members_setMember, if_neg hk] at hk')

/-- Nobody is made an owner, and no owner is changed. -/
theorem commits_setMember_of_not_owner {o : Option RelayMember}
    (hlock : (.member k, .exclusive) ∈ held)
    (hcommunity : (t.members.lookup k).isSome = true ∨ (t.communities.lookup k.1).isSome = true)
    (hk : t.role k ≠ some .owner) (ho : o.map (·.role) ≠ some .owner) :
    Commits strict limit held t (t.setMember k o) :=
  commits_setMember hlock hcommunity (fun h => absurd h hk) fun _ h => absurd h ho

theorem commits_insertCommunity {i : Uuid} {c : Community}
    (hlock : (.community i, .exclusive) ∈ held) :
    Commits strict limit held t (t.insertCommunity i c) := by
  have hfounded (j : Uuid) (hj : (t.communities.lookup j).isSome = true) :
      ((t.insertCommunity i c).communities.lookup j).isSome = true := by
    rw [Tables.lookup_insertCommunity]
    split_ifs
    · rfl
    · exact hj
  refine ⟨fun _ => .inl rfl, fun j => ?_, hfounded, fun _ hc => hc,
    fun _ _ => .inl (Nat.le_refl _), fun hs k hk => hfounded k.1 (hs k hk)⟩
  by_cases hj : j = i
  · exact .inr (hj ▸ hlock)
  · exact .inl ((Tables.lookup_insertCommunity c).trans (if_neg hj))

/-! ### What others may not do -/

section

variable (h : Relies (Commits strict limit) held t t') {mode : Mode}

include h

theorem Relies.member_eq (hk : (.member k, mode) ∈ held) :
    t'.members.lookup k = t.members.lookup k :=
  Relies.row_eq h (fun _ _ _ (hs : Commits strict limit _ _ _) => hs.member) hk

theorem Relies.role_eq (hk : (.member k, mode) ∈ held) : t'.role k = t.role k :=
  Tables.role_congr (Relies.member_eq h hk)

theorem Relies.community_eq {i : Uuid} (hi : (.community i, mode) ∈ held) :
    t'.communities.lookup i = t.communities.lookup i :=
  Relies.row_eq h (fun _ _ _ (hs : Commits strict limit _ _ _) => hs.community) hi

theorem Relies.founded {i : Uuid} (hi : (t.communities.lookup i).isSome = true) :
    (t'.communities.lookup i).isSome = true :=
  h.invariant (P := fun s => (s.communities.lookup i).isSome = true)
    (fun _ _ _ _ hs hi => hs.founded i hi) hi

/-- Nobody is made an owner whose advisory lock is held. -/
theorem Relies.ownedBy_le (hstrict : strict) {pubkey : String}
    (hlock : (.ownerCount (ownerCountAdvisoryLockKey pubkey), mode) ∈ held) :
    t'.ownedBy pubkey ≤ t.ownedBy pubkey := by
  refine h.invariant (P := fun s => s.ownedBy pubkey ≤ t.ownedBy pubkey)
    (fun held' s s' hcompatible hs hle => ?_) (Nat.le_refl _)
  rcases hs.counted hstrict pubkey with hle' | ⟨-, hlock'⟩
  · exact hle'.trans hle
  · exact absurd hlock (hcompatible.symm.exclusive hlock' mode)

end

end Buzz.Db.Members
