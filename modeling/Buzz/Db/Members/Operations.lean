import Buzz.Db.Members.Guarantee

/-!
# What the operations of the membership store commit

Whatever others commit meanwhile, a transaction changes the roles that its operation may change, and
nothing of another community.

## Main definitions

* `Op.Called`, `Op.Bootstraps`: operations as they are called, and the one that knows no limit.
* `Op.Changes`: how an operation may change the role of a member.
* `Op.Commit`: what a commit of an operation is.

## Main results

* `safe_program`: every operation commits as stated.
* `Op.Commit.soleOwner`, `Op.Commit.founds`: what a commit does to the owner of a community.
-/

namespace Buzz.Db.Members

open Buzz.Core (Uuid)
open Buzz.Db.Deletion (Community)
open Buzz.Library Buzz.Library.Transactions

/-! ### Operations -/

/-- Nothing changes but in one community. -/
structure Tables.Within (c : Uuid) (s s' : Tables) : Prop where
  member : ∀ k : MemberKey, k.1 ≠ c → s'.members.lookup k = s.members.lookup k
  community : ∀ i, i ≠ c → s'.communities.lookup i = s.communities.lookup i

namespace Op

/-- The operation is called as the relay, its workflows and `buzz-admin` call it. -/
def Called : Op → Prop
  | .addRelayMember _ _ _ role _ | .removeRelayMemberIfRole _ _ role
  | .updateRelayMemberRole _ _ role => role ≠ .owner
  | _ => True

/-- The operation of startup and provisioning, which knows no limit. -/
def Bootstraps : Op → Prop
  | .bootstrapOwner .. => True
  | _ => False

/-- The community of an operation. -/
def community : Op → Uuid
  | .addRelayMember _ c _ _ _ | .removeRelayMember c _ | .removeRelayMemberIfRole c _ _
  | .updateRelayMemberRole c _ _ | .bootstrapOwner c _ | .transferOwnership c _ _
  | .createCommunityWithOwner c _ _ => c

/-- How a commit of an operation may change the role of a member. -/
inductive Changes : Op → MemberKey → Option Role → Option Role → Prop
  | add (waits : Bool) (c : Uuid) (pubkey : String) (role : Role) (addedBy : Option String) :
      Changes (.addRelayMember waits c pubkey role addedBy) (c, pubkey) none (some role)
  | remove (c : Uuid) (pubkey : String) (role : Role) (hrole : role ≠ .owner) :
      Changes (.removeRelayMember c pubkey) (c, pubkey) (some role) none
  | removeIfRole (c : Uuid) (pubkey : String) (role : Role) :
      Changes (.removeRelayMemberIfRole c pubkey role) (c, pubkey) (some role) none
  | update (c : Uuid) (pubkey : String) (role role' : Role) (hrole : role ≠ .owner) :
      Changes (.updateRelayMemberRole c pubkey role') (c, pubkey) (some role) (some role')
  | bootstrap (c : Uuid) (owner : String) (o : Option Role) :
      Changes (.bootstrapOwner c owner) (c, toAsciiLowercase owner) o (some .owner)
  | rotate (c : Uuid) (owner pubkey : String) (hne : pubkey ≠ toAsciiLowercase owner) :
      Changes (.bootstrapOwner c owner) (c, pubkey) (some .owner) (some .admin)
  | transfer (c : Uuid) (owner expected : String) (o : Option Role) :
      Changes (.transferOwnership c owner expected) (c, toAsciiLowercase owner) o (some .owner)
  | demote (c : Uuid) (owner expected pubkey : String) (hne : pubkey ≠ toAsciiLowercase owner) :
      Changes (.transferOwnership c owner expected) (c, pubkey) (some .owner) (some .member)
  | create (c : Uuid) (host owner : String) :
      Changes (.createCommunityWithOwner c host owner) (c, toAsciiLowercase owner) none
        (some .owner)

/-- What else a commit of an operation is, from its result. -/
def Effect : (op : Op) → op.Result → Tables → Tables → Prop
  | .transferOwnership c owner expected, result, s, s' =>
    s' = s ∨ (∃ previous, result = .transferred previous) ∧
      s.role (c, toAsciiLowercase expected) = some .owner ∧
        ∀ pubkey, s.SoleOwner c pubkey → s'.SoleOwner c (toAsciiLowercase owner)
  | .createCommunityWithOwner c _ owner, _, s, s' => s' = s ∨
    s.communities.lookup c = none ∧ s'.role (c, toAsciiLowercase owner) = some .owner
  | _, _, _, _ => True

/-- What a commit of an operation is. -/
structure Commit (op : Op) (result : op.Result) (s s' : Tables) : Prop where
  within : s.Within op.community s'
  changes : ∀ k, s'.role k = s.role k ∨ op.Changes k (s.role k) (s'.role k)
  effect : op.Effect result s s'

variable {op : Op} {result : op.Result} {s s' : Tables}

/-- Where nothing changes. -/
theorem Commit.refl (heffect : op.Effect result s s) : op.Commit result s s :=
  ⟨⟨fun _ _ => rfl, fun _ _ => rfl⟩, fun _ => .inl rfl, heffect⟩

/-- Where a row of a member is all that changes. -/
theorem Commit.setMember {k : MemberKey} {o : Option RelayMember} (hs' : s' = s.setMember k o)
    (hop : op.community = k.1) (hchanges : op.Changes k (s.role k) (o.map (·.role)))
    (heffect : op.Effect result s s') : op.Commit result s s' := by
  subst hs'
  refine ⟨⟨fun k' hk' => ?_, fun i _ => by rw [Tables.communities_setMember]⟩, fun k' => ?_,
    heffect⟩
  · rw [Tables.members_setMember, if_neg fun heq => hk' (hop ▸ congrArg Prod.fst heq)]
  · rw [Tables.role_setMember]
    by_cases hk : k' = k
    · rw [if_pos hk, hk]
      exact .inr hchanges
    · rw [if_neg hk]
      exact .inl rfl

end Op

variable {strict : Prop} {limit : ℕ} {held : Held LockKey} {w : Tables → Tables} {t : Tables}
  {start : ℤ} {k : MemberKey} {role : Role}

/-- An operation that commits as stated, whatever others commit. -/
abbrev Op.Ends (strict : Prop) (limit : ℕ) (op : Op) (p : Tx op.Result) (t : Tables) : Prop :=
  Does (Commits strict limit) p (fun result => Always (Commits strict limit) (op.Commit result))
    [] id t

/-! ### Statements -/

theorem does_deleteMember {p : Role → Bool} (hp : p .owner = false)
    {K : Ending LockKey Tables Bool}
    (hdeleted : ∀ t' role, t'.role k = some role → p role = true →
      K true [(.member k, .exclusive)] (·.setMember k none) t')
    (hnot : ∀ held' t', K false held' id t') :
    Does (Commits strict limit) (deleteMember k p) K [] id t := by
  unfold deleteMember
  refine does_bind (does_read fun t₁ _ => ?_)
  split
  · refine does_bind (does_lock composable_commits fun t₂ _ => does_bind (does_read fun t₃ _ => ?_))
    split
    · next hfound =>
      obtain ⟨role, hrole, hprole⟩ := (Option.any_eq_true _ _).mp hfound
      refine does_bind (does_write composable_commits (fun s hs => ?_)
        (does_pure (hdeleted t₃ role hrole hprole)))
      have hrole' : s.role k = some role := (Relies.role_eq hs List.mem_cons_self).trans hrole
      obtain ⟨r, hr, -⟩ := Tables.role_eq_some_iff.mp hrole'
      refine commits_setMember_of_not_owner List.mem_cons_self (.inl (Option.isSome_of_eq_some hr))
        (fun howner => ?_) (by simp)
      rw [Option.some.inj (hrole'.symm.trans howner), hp] at hprole
      cases hprole
    · exact does_pure (hnot _ t₃)
  · exact does_pure (hnot _ t₁)

theorem does_updateFound {p : Role → Bool}
    {K : Ending LockKey Tables Bool}
    (hwrite : ∀ t' r s, Relies (Commits strict limit) held t t' →
      (w t').members.lookup k = some r → p r.role = true →
        Relies (Commits strict limit) ((.member k, .exclusive) :: held) t' s →
          Commits strict limit ((.member k, .exclusive) :: held) (w s)
            ((w s).setMember k (some { r with role := role, updatedAt := start })))
    (hupdated : ∀ t' r, Relies (Commits strict limit) held t t' →
      (w t').members.lookup k = some r → p r.role = true →
        K true ((.member k, .exclusive) :: held)
          ((·.setMember k (some { r with role := role, updatedAt := start })) ∘ w) t')
    (hnot : ∀ t', Relies (Commits strict limit) held t t' →
      (∀ r, (w t').members.lookup k = some r → p r.role = false) →
        K false ((.member k, .exclusive) :: held) w t') :
    Does (Commits strict limit) (updateFound start role p k) K held w t := by
  unfold updateFound
  refine does_bind (does_lock composable_commits fun t₁ h₁ => does_bind (does_read fun t₂ h₂ => ?_))
  have hrelies := h₁.trans (h₂.of_subset (List.subset_cons_self _ _))
  cases hr : ((w t₂).members.lookup k).filter fun r => p r.role with
  | some r =>
    obtain ⟨hlookup, hp⟩ := Option.filter_eq_some_iff.mp hr
    exact does_bind (does_write composable_commits
      (fun s hs => hwrite t₂ r s hrelies hlookup hp hs)
      (does_pure (hupdated t₂ r hrelies hlookup hp)))
  | none =>
    refine does_pure (hnot t₂ hrelies fun r hlookup => ?_)
    simpa using Option.filter_eq_none_iff.mp hr r hlookup

/-! ### Members -/

theorem does_addRelayMember (waits : Bool) (c : Uuid) (pubkey : String) (addedBy : Option String)
    (hrole : role ≠ .owner) : (Op.addRelayMember waits c pubkey role addedBy).Ends strict limit
      (addRelayMember start waits c pubkey role addedBy) t := by
  have hnot (held' : Held LockKey) (t' : Tables) : Always (Commits strict limit)
      ((Op.addRelayMember waits c pubkey role addedBy).Commit false) held' id t' :=
    fun s _ => .refl trivial
  unfold Op.Ends addRelayMember insertMember
  refine does_bind (does_read fun t₁ _ => ?_)
  split
  · exact does_pure (hnot _ t₁)
  · refine does_bind (does_lock composable_commits fun t₂ _ => does_bind (does_read fun t₃ _ => ?_))
    split
    · exact does_pure (hnot _ t₃)
    · next hnone =>
      have hrole' {s : Tables} (hs : Relies (Commits strict limit)
          [(.member (c, pubkey), .exclusive)] t₃ s) : s.role (c, pubkey) = none :=
        (Relies.role_eq hs List.mem_cons_self).trans (Tables.role_eq (by simpa using hnone))
      refine does_bind (does_require fun hcommunity => does_bind (does_write composable_commits
        (fun s hs => ?_) (does_pure fun s hs => ?_)))
      · exact commits_setMember_of_not_owner List.mem_cons_self
          (.inr (Relies.founded hs hcommunity)) (by simp [hrole' hs]) (by simpa using hrole)
      · change (Op.addRelayMember waits c pubkey role addedBy).Commit true s
          (s.setMember (c, pubkey) (some ⟨role, addedBy, start, start⟩))
        refine .setMember rfl rfl ?_ trivial
        rw [hrole' hs]
        exact .add waits c pubkey role addedBy

theorem does_removeRelayMember (c : Uuid) (pubkey : String) :
    (Op.removeRelayMember c pubkey).Ends strict limit (removeRelayMember c pubkey) t := by
  unfold Op.Ends removeRelayMember
  refine does_bind (does_deleteMember rfl (fun t' role hrole hp => ?_) fun held' t' => ?_)
  · rw [if_pos rfl]
    refine does_pure fun s hs => .setMember rfl rfl ?_ trivial
    rw [(Relies.role_eq hs List.mem_cons_self).trans hrole]
    exact .remove c pubkey role (by simpa using hp)
  · rw [if_neg Bool.false_ne_true]
    exact does_bind (does_read fun t₁ _ => does_pure fun s _ => .refl trivial)

theorem does_removeRelayMemberIfRole (c : Uuid) (pubkey : String) (hrole : role ≠ .owner) :
    (Op.removeRelayMemberIfRole c pubkey role).Ends strict limit
      (removeRelayMemberIfRole c pubkey role) t := by
  unfold Op.Ends removeRelayMemberIfRole
  refine does_bind (does_deleteMember (decide_eq_false hrole.symm) (fun t' role' hrole' hp => ?_)
    fun held' t' => ?_)
  · rw [if_pos rfl]
    refine does_pure fun s hs => .setMember rfl rfl ?_ trivial
    rw [(Relies.role_eq hs List.mem_cons_self).trans hrole', of_decide_eq_true hp]
    exact .removeIfRole c pubkey role
  · rw [if_neg Bool.false_ne_true]
    refine does_bind (does_read fun t₁ _ => ?_)
    split
    · exact does_pure fun s _ => .refl trivial
    · exact does_pure fun s _ => .refl trivial

theorem does_updateRelayMemberRole (c : Uuid) (pubkey : String) (hrole : role ≠ .owner) :
    (Op.updateRelayMemberRole c pubkey role).Ends strict limit
      (updateRelayMemberRole start c pubkey role) t := by
  unfold Op.Ends updateRelayMemberRole
  refine does_bind (does_read fun t₁ _ => ?_)
  split
  · refine does_updateFound (fun t' r s _ hr hp hs => ?_) (fun t' r _ hr hp s hs => ?_)
      fun t' _ _ s _ => .refl trivial
    · have hr' : s.members.lookup (c, pubkey) = some r :=
        (Relies.member_eq hs List.mem_cons_self).trans hr
      refine commits_setMember_of_not_owner List.mem_cons_self
        (.inl (Option.isSome_of_eq_some hr')) ?_ (by simpa using hrole)
      rw [id, Tables.role_eq hr']
      simpa using hp
    · change (Op.updateRelayMemberRole c pubkey role).Commit true s
        (s.setMember (c, pubkey) (some { r with role := role, updatedAt := start }))
      refine .setMember rfl rfl ?_ trivial
      rw [Tables.role_eq ((Relies.member_eq hs List.mem_cons_self).trans hr)]
      exact .update c pubkey r.role role (by simpa using hp)
  · exact does_pure fun s _ => .refl trivial

/-! ### Owners -/

theorem does_upsertOwner {K : Ending LockKey Tables PUnit}
    (hgained : ∀ s, Relies (Commits strict limit) held t s → strict →
      s.role k = some .owner ∨ s.Promotes limit held k.2)
    (hK : ∀ t' r, Relies (Commits strict limit) held t t' → r.role = .owner →
      K ⟨⟩ ((.member k, .exclusive) :: held) (·.setMember k (some r)) t') :
    Does (Commits strict limit) (upsertOwner start k) K held id t := by
  have hsubset : held ⊆ (.member k, .exclusive) :: held := List.subset_cons_self _ _
  unfold upsertOwner
  refine does_bind (does_lock composable_commits fun t₁ h₁ => does_bind (does_read fun t₂ h₂ => ?_))
  have hrelies := h₁.trans (h₂.of_subset hsubset)
  have hwrite {s : Tables} {r : RelayMember} (hr : r.role = .owner)
      (hs : Relies (Commits strict limit) ((.member k, .exclusive) :: held) t₂ s)
      (hcommunity : (s.members.lookup k).isSome = true ∨
        (s.communities.lookup k.1).isSome = true) :
      Commits strict limit ((.member k, .exclusive) :: held) s (s.setMember k (some r)) :=
    commits_setMember List.mem_cons_self hcommunity (fun _ => .inl (congrArg some hr))
      fun hstrict _ => (hgained s (hrelies.trans (hs.of_subset hsubset)) hstrict).imp_right
        fun h => ⟨hsubset h.lock, h.count⟩
  split
  · next r hr =>
    refine does_write composable_commits (fun s hs => hwrite rfl hs (.inl ?_))
      (hK t₂ _ hrelies rfl)
    exact Option.isSome_of_eq_some ((Relies.member_eq hs List.mem_cons_self).trans hr)
  · refine does_bind (does_require fun hcommunity => ?_)
    exact does_write composable_commits
      (fun s hs => hwrite rfl hs (.inr (Relies.founded hs hcommunity))) (hK t₂ _ hrelies rfl)

/-- What is committed while the owners of a community but one are demoted. -/
structure Demoted (k : MemberKey) (role : Role) (done : List MemberKey) (s s' : Tables) :
    Prop where
  owner : s'.role k = some .owner
  demoted : ∀ k' ∈ done, k'.1 = k.1 ∧ k' ≠ k ∧ s.role k' = some .owner ∧ s'.role k' = some role
  others : ∀ k', k' ≠ k → k' ∉ done → s'.members.lookup k' = s.members.lookup k'
  communities : s'.communities = s.communities

namespace Demoted

variable {done : List MemberKey} {s s' : Tables} {k' : MemberKey}

theorem setMember {r : RelayMember} (hr : r.role = .owner) :
    Demoted k role [] s (s.setMember k (some r)) where
  owner := by rw [Tables.role_setMember, if_pos rfl, Option.map_some, hr]
  demoted _ h := absurd h List.not_mem_nil
  others k' hk' _ := by rw [Tables.members_setMember, if_neg hk']
  communities := rfl

/-- The next owner is demoted. -/
theorem next (h : Demoted k role done s s') (hc : k'.1 = k.1) (hk' : k' ≠ k) {r : RelayMember}
    (hrole : s.role k' = some .owner) (hr : r.role = role) :
    Demoted k role (k' :: done) s (s'.setMember k' (some r)) where
  owner := by
    rw [Tables.role_setMember, if_neg hk'.symm]
    exact h.owner
  demoted k'' hk'' := by
    rw [Tables.role_setMember]
    by_cases heq : k'' = k'
    · subst heq
      exact ⟨hc, hk', hrole, by simp [hr]⟩
    · rw [if_neg heq]
      exact h.demoted k'' ((List.mem_cons.mp hk'').resolve_left heq)
  others k'' hne hk'' := by
    obtain ⟨hk₁, hk₂⟩ := not_or.mp fun hor => hk'' (List.mem_cons.mpr hor)
    rw [Tables.members_setMember, if_neg hk₁]
    exact h.others k'' hne hk₂
  communities := h.communities

/-- What the demotion is a commit of. -/
theorem commit (h : Demoted k role done s s') {op : Op} {result : op.Result}
    (hop : op.community = k.1) (howner : ∀ o, op.Changes k o (some .owner))
    (hdemoted : ∀ pubkey, (k.1, pubkey) ≠ k → op.Changes (k.1, pubkey) (some .owner) (some role))
    (heffect : op.Effect result s s') : op.Commit result s s' := by
  refine ⟨⟨fun k' hk' => ?_, fun i _ => by rw [h.communities]⟩, fun k' => ?_, heffect⟩
  · refine h.others k' (fun heq => hk' (hop ▸ congrArg Prod.fst heq)) fun hmem => ?_
    exact hk' (hop ▸ (h.demoted k' hmem).1)
  · by_cases hk' : k' = k
    · rw [hk', h.owner]
      exact .inr (howner _)
    · by_cases hmem : k' ∈ done
      · obtain ⟨hc, hne, hold, hnew⟩ := h.demoted k' hmem
        obtain ⟨c, pubkey⟩ := k'
        obtain rfl : c = k.1 := hc
        rw [hold, hnew]
        exact .inr (hdemoted pubkey hne)
      · exact .inl (Tables.role_congr (h.others k' hk' hmem))

/-- Once the only owner is demoted, there is but the new one. -/
theorem soleOwner {c : Uuid} {owner pubkey : String} (h : Demoted (c, owner) role done s s')
    (hrole : role ≠ .owner) (hsole : s.SoleOwner c pubkey)
    (hdone : (c, pubkey) ≠ (c, owner) → (c, pubkey) ∈ done) : s'.SoleOwner c owner := by
  intro pubkey'
  refine ⟨fun howner => ?_, fun heq => heq ▸ h.owner⟩
  by_contra hne
  have hne' : (c, pubkey') ≠ (c, owner) := fun heq => hne (congrArg Prod.snd heq)
  by_cases hmem : (c, pubkey') ∈ done
  · exact hrole (Option.some.inj ((h.demoted _ hmem).2.2.2.symm.trans howner))
  · have hold := (Tables.role_congr (h.others _ hne' hmem)).symm.trans howner
    obtain rfl : pubkey' = pubkey := (hsole pubkey').mp hold
    exact hmem (hdone hne')

end Demoted

theorem does_demoteFound (hrole : role ≠ .owner) : ∀ (found done : List MemberKey)
    {held : Held LockKey} {w : Tables → Tables} {t : Tables}
    {K : Ending LockKey Tables PUnit},
    (∀ k' ∈ found, k'.1 = k.1 ∧ k' ≠ k) →
      Always (Commits strict limit) (Demoted k role done) held w t →
        (∀ held' w' t' done', held ⊆ held' → Relies (Commits strict limit) held t t' →
          Always (Commits strict limit) (Demoted k role done') held' w' t' →
            (∀ k' ∈ found, k' ∈ done' ∨
              (.member k', .exclusive) ∈ held' ∧ t'.role k' ≠ some .owner) → done ⊆ done' →
                K ⟨⟩ held' w' t') →
          Does (Commits strict limit) (demoteFound start role found) K held w t
  | [], done, held, w, t, K, _, hdemoted, hK =>
    does_pure (hK held w t done (List.Subset.refl _) .refl hdemoted
      (fun _ h => absurd h List.not_mem_nil) (List.Subset.refl _))
  | k' :: found, done, held, w, t, K, hfound, hdemoted, hK => by
    have hsubset : held ⊆ (.member k', .exclusive) :: held := List.subset_cons_self _ _
    obtain ⟨hc, hne⟩ := hfound k' List.mem_cons_self
    have hrest : ∀ k'' ∈ found, k''.1 = k.1 ∧ k'' ≠ k := fun k'' hk'' =>
      hfound k'' (List.mem_cons_of_mem _ hk'')
    -- who is still an owner has not been demoted, and is as he is committed
    have hnew {t' : Tables} {r : RelayMember} (h' : Relies (Commits strict limit) held t t')
        (hr : (w t').members.lookup k' = some r) (howner : decide (r.role = .owner) = true) :
        k' ∉ done := fun hmem => by
      have hsame := ((hdemoted t' h').demoted k' hmem).2.2.2.symm.trans (Tables.role_eq hr)
      exact hrole ((Option.some.inj hsame).trans (of_decide_eq_true howner))
    have hrow {t' s : Tables} {r : RelayMember} (h' : Relies (Commits strict limit) held t t')
        (hr : (w t').members.lookup k' = some r) (howner : decide (r.role = .owner) = true)
        (hs : Relies (Commits strict limit) ((.member k', .exclusive) :: held) t' s) :
        s.members.lookup k' = some r :=
      (Relies.member_eq hs List.mem_cons_self).trans
        (((hdemoted t' h').others k' hne (hnew h' hr howner)).symm.trans hr)
    unfold demoteFound
    refine does_bind (does_updateFound (fun t' r s h' hr howner hs => ?_)
      (fun t' r h' hr howner => ?_) fun t' h' hnot => ?_)
    · have hs' := hdemoted s (h'.trans (hs.of_subset hsubset))
      have hr' : (w s).members.lookup k' = some r :=
        (hs'.others k' hne (hnew h' hr howner)).trans (hrow h' hr howner hs)
      refine commits_setMember List.mem_cons_self (.inl (Option.isSome_of_eq_some hr'))
        (fun _ => .inr ⟨k, hne.symm, hc.symm, hs'.owner⟩) fun _ howner' => ?_
      exact absurd (Option.some.inj howner') hrole
    · refine does_demoteFound hrole found (k' :: done) hrest (fun s hs => ?_)
        fun held' w' t'' done' hheld h'' hdone hrest' hsub => ?_
      · have howner' : s.role k' = some .owner := (Tables.role_eq (hrow h' hr howner hs)).trans
          (congrArg some (of_decide_eq_true howner))
        exact (hdemoted s (h'.trans (hs.of_subset hsubset))).next hc hne howner' rfl
      · refine hK held' w' t'' done' (List.Subset.trans hsubset hheld)
          (h'.trans (h''.of_subset hsubset)) hdone (fun k'' hk'' => ?_)
          (List.Subset.trans (List.subset_cons_self _ _) hsub)
        rcases List.mem_cons.mp hk'' with rfl | hk''
        · exact .inl (hsub List.mem_cons_self)
        · exact hrest' k'' hk''
    · refine does_demoteFound hrole found done hrest
        ((hdemoted.relies h').of_subset hsubset)
        fun held' w' t'' done' hheld h'' hdone hrest' hsub => ?_
      refine hK held' w' t'' done' (List.Subset.trans hsubset hheld)
        (h'.trans (h''.of_subset hsubset)) hdone (fun k'' hk'' => ?_) hsub
      rcases List.mem_cons.mp hk'' with rfl | hk''
      · by_cases hmem : k'' ∈ done
        · exact .inl (hsub hmem)
        · refine .inr ⟨hheld List.mem_cons_self, ?_⟩
          rw [Relies.role_eq h'' List.mem_cons_self,
            ← Tables.role_congr ((hdemoted t' h').others k'' hne hmem)]
          intro howner
          obtain ⟨r, hr, howner⟩ := Tables.role_eq_some_iff.mp howner
          exact of_decide_eq_false (hnot r hr) howner
      · exact hrest' k'' hk''

/-- The owners but one are demoted, as far as they are locked. -/
theorem does_demoteOwners (hrole : role ≠ .owner)
    {K : Ending LockKey Tables PUnit}
    (hdemoted : Always (Commits strict limit) (Demoted k role []) held w t)
    (hK : ∀ held' w' t' done, held ⊆ held' → Relies (Commits strict limit) held t t' →
      Always (Commits strict limit) (Demoted k role done) held' w' t' →
        (∀ k' : MemberKey, k'.1 = k.1 → k' ≠ k → (.member k', .exclusive) ∈ held →
          t'.role k' = some .owner → k' ∈ done) → K ⟨⟩ held' w' t') :
    Does (Commits strict limit) (demoteOwners start k role) K held w t := by
  unfold demoteOwners
  refine does_bind (does_read fun t₁ h₁ => ?_)
  refine does_demoteFound hrole _ [] (fun k' hk' => ?_) (hdemoted.relies h₁)
    fun held' w' t' done hheld h' hdone hsettled _ => ?_
  · obtain ⟨hmem, hne⟩ := List.mem_filter.mp hk'
    exact ⟨(Tables.mem_ownersOf.mp hmem).1, by simpa using hne⟩
  · refine hK held' w' t' done hheld (h₁.trans h') hdone fun k' hc hne hlock howner => ?_
    -- he was found, since he was locked
    have hfound : (w t₁).role k' = some .owner := by
      rw [Tables.role_congr ((hdemoted t₁ h₁).others k' hne List.not_mem_nil),
        ← Relies.role_eq h' hlock]
      exact howner
    have hmem : k' ∈ ((w t₁).ownersOf k.1).filter (· ≠ k) :=
      List.mem_filter.mpr ⟨Tables.mem_ownersOf.mpr ⟨hc, hfound⟩, by simpa using hne⟩
    exact (hsettled k' hmem).resolve_right fun hnot => hnot.2 howner

theorem does_lockOwners : ∀ (found : List MemberKey) {held : Held LockKey} {t : Tables}
    {K : Ending LockKey Tables (List MemberKey)},
    (∀ held' t' owners, held ⊆ held' → Relies (Commits strict limit) held t t' →
      (∀ k' ∈ owners, k' ∈ found ∧ (.member k', .exclusive) ∈ held' ∧
        t'.role k' = some .owner) → K owners held' id t') →
      Does (Commits strict limit) (lockOwners found) K held id t
  | [], held, t, K, hK =>
    does_pure (hK held t [] (List.Subset.refl _) .refl fun _ h => absurd h List.not_mem_nil)
  | k' :: found, held, t, K, hK => by
    have hsubset : held ⊆ (.member k', .exclusive) :: held := List.subset_cons_self _ _
    unfold lockOwners
    refine does_bind (does_lock composable_commits fun t₁ h₁ => ?_)
    refine does_bind (does_read fun t₂ h₂ => ?_)
    refine does_bind (does_lockOwners found fun held' t₃ owners hheld h₃ howners => ?_)
    have hend := h₁.trans ((h₂.trans h₃).of_subset hsubset)
    refine does_pure (hK held' t₃ _ (List.Subset.trans hsubset hheld) hend fun k'' hk'' => ?_)
    have hrest : k'' ∈ owners → k'' ∈ k' :: found ∧ (.member k'', .exclusive) ∈ held' ∧
        t₃.role k'' = some .owner := fun hmem =>
      ⟨List.mem_cons_of_mem _ (howners k'' hmem).1, (howners k'' hmem).2⟩
    split_ifs at hk'' with howner
    · rcases List.mem_cons.mp hk'' with rfl | hk''
      · exact ⟨List.mem_cons_self, hheld List.mem_cons_self,
          (Relies.role_eq h₃ List.mem_cons_self).trans howner⟩
      · exact hrest hk''
    · exact hrest hk''

theorem does_bootstrapOwner (c : Uuid) (owner : String) (hstrict : ¬ strict) :
    (Op.bootstrapOwner c owner).Ends strict limit (bootstrapOwner start c owner) t := by
  unfold Op.Ends bootstrapOwner
  refine does_bind (does_upsertOwner (fun _ _ h => absurd h hstrict) fun t₁ r _ hr => ?_)
  refine does_demoteOwners (by simp) (fun s _ => .setMember hr)
    fun held' w' t' done _ _ hdone _ => hdone.imp fun s _ hs => ?_
  exact hs.commit rfl (.bootstrap c owner)
    (fun pubkey hne => .rotate c owner pubkey fun heq => hne (Prod.ext rfl heq)) trivial

theorem does_transferOwnership (c : Uuid) (owner expected : String) :
    (Op.transferOwnership c owner expected).Ends strict limit
      (transferOwnership limit start c owner expected) t := by
  have hsame (result : TransferResult) (held' : Held LockKey) (t' : Tables) :
      Does (Commits strict limit) (pure result : Tx TransferResult) (fun result =>
        Always (Commits strict limit) ((Op.transferOwnership c owner expected).Commit result))
          held' id t' := does_pure fun s _ => .refl (.inl rfl)
  unfold Op.Ends transferOwnership selectOwnersForUpdate
  refine does_bind (does_lock composable_commits fun t₀ _ => ?_)
  refine does_bind (does_bind (does_read fun t₁ _ => ?_))
  refine does_lockOwners _ fun held₁ t₂ owners hheld₁ _ howners => ?_
  dsimp only
  split_ifs with hnone hmem halready
  · exact hsame _ _ _
  · exact hsame _ _ _
  · refine does_bind (does_read fun t₃ h₃ => ?_)
    split_ifs with hlimit
    · exact hsame _ _ _
    -- the expected owner is locked
    have hexpected : (LockKey.member (c, toAsciiLowercase expected), Mode.exclusive) ∈ held₁ ∧
        t₂.role (c, toAsciiLowercase expected) = some .owner := by
      obtain ⟨⟨c', pubkey⟩, hmem, rfl⟩ := List.mem_map.mp hmem
      obtain ⟨hfound, hrest⟩ := howners _ hmem
      obtain rfl : c' = c := (Tables.mem_ownersOf.mp hfound).1
      exact hrest
    have howner {s : Tables} (hs : Relies (Commits strict limit) held₁ t₂ s) :
        s.role (c, toAsciiLowercase expected) = some .owner :=
      (Relies.role_eq hs hexpected.1).trans hexpected.2
    have hadvisory : (LockKey.ownerCount (ownerCountAdvisoryLockKey (toAsciiLowercase owner)),
        Mode.exclusive) ∈ held₁ := hheld₁ List.mem_cons_self
    refine does_bind (does_upsertOwner (fun s hs hstrict => .inr ⟨hadvisory,
      (Relies.ownedBy_le hs hstrict hadvisory).trans_lt (not_le.mp hlimit)⟩)
        fun t₄ r h₄ hr => ?_)
    refine does_bind (does_demoteOwners (by simp) (fun s _ => .setMember hr)
      fun held' w' t' done hheld' h' hdone hall => does_pure ?_)
    refine hdone.imp fun s hs hdemoted => ?_
    have hsubset : held₁ ⊆ (.member (c, toAsciiLowercase owner), .exclusive) :: held₁ :=
      List.subset_cons_self _ _
    have hnow := howner
      (h₃.trans (h₄.trans ((h'.trans (hs.of_subset hheld')).of_subset hsubset)))
    refine hdemoted.commit rfl (.transfer c owner expected) (fun pubkey hne =>
      .demote c owner expected pubkey fun heq => hne (Prod.ext rfl heq))
      (.inr ⟨⟨_, rfl⟩, hnow, fun pubkey hsole => hdemoted.soleOwner (by simp) hsole fun hne => ?_⟩)
    -- the only owner is the expected one, whom the transfer finds
    obtain rfl : toAsciiLowercase expected = pubkey := (hsole _).mp hnow
    exact hall _ rfl hne (hsubset hexpected.1)
      (howner (h₃.trans (h₄.trans (h'.of_subset hsubset))))
  · exact hsame _ _ _

/-! ### Communities -/

theorem does_createCommunityWithOwner (i : Uuid) (host owner : String) :
    (Op.createCommunityWithOwner i host owner).Ends strict limit
      (createCommunityWithOwner limit start i host owner) t := by
  unfold Op.Ends createCommunityWithOwner
  refine does_bind (does_lock composable_commits fun t₁ _ => ?_)
  refine does_bind (does_lock composable_commits fun t₂ _ => does_bind (does_read fun t₃ _ => ?_))
  split
  · refine does_bind (does_read fun t₄ _ => ?_)
    split
    · exact does_pure fun s _ => .refl (Or.inl rfl)
    · exact does_pure fun s _ => .refl (Or.inl rfl)
  · refine does_bind (does_lock composable_commits fun t₄ _ => does_bind (does_read fun t₅ _ => ?_))
    refine does_bind (does_require fun hnew => ?_)
    refine does_bind (does_write composable_commits
      (fun s _ => commits_insertCommunity List.mem_cons_self) ?_)
    refine does_bind (does_read fun t₆ h₆ => ?_)
    split_ifs with hlimit
    · exact does_fail
    refine does_bind (does_lock composable_commits fun t₇ h₇ => ?_)
    refine does_bind (does_read fun t₈ h₈ => does_bind (does_require fun hmember => ?_))
    have hadvisory : (LockKey.ownerCount (ownerCountAdvisoryLockKey (toAsciiLowercase owner)),
        Mode.exclusive) ∈ (LockKey.community i, Mode.exclusive) ::
          (.host host.toLower, .exclusive) ::
            [(.ownerCount (ownerCountAdvisoryLockKey (toAsciiLowercase owner)), .exclusive)] :=
      List.mem_cons_of_mem _ (List.mem_cons_of_mem _ List.mem_cons_self)
    refine does_bind (does_write composable_commits (fun s hs => ?_) (does_pure fun s hs => ?_))
    · refine commits_setMember List.mem_cons_self (.inr (Option.isSome_of_eq_some
        ((Tables.lookup_insertCommunity _).trans (if_pos rfl)))) (fun _ => .inl rfl)
        fun hstrict _ => .inr ⟨List.mem_cons_of_mem _ hadvisory, ?_⟩
      have hrelies := h₇.trans ((h₈.trans hs).of_subset (List.subset_cons_self _ _))
      exact (Relies.ownedBy_le hrelies hstrict hadvisory).trans_lt (not_le.mp hlimit)
    · have hrelies := h₆.trans (h₇.trans ((h₈.trans hs).of_subset (List.subset_cons_self _ _)))
      have hnone : s.communities.lookup i = none :=
        (Relies.community_eq hrelies List.mem_cons_self).trans (by simpa using hnew)
      have hmember' : s.role (i, toAsciiLowercase owner) = none := Tables.role_eq
        ((Relies.member_eq hs List.mem_cons_self).trans (Option.isNone_iff_eq_none.mp hmember))
      have howner : (s.setMember (i, toAsciiLowercase owner)
          (some ⟨.owner, none, start, start⟩)).role (i, toAsciiLowercase owner) = some .owner := by
        rw [Tables.role_setMember, if_pos rfl]
        rfl
      have hcommit : (Op.createCommunityWithOwner i host owner).Commit (.created i host)
          s (s.setMember (i, toAsciiLowercase owner) (some ⟨.owner, none, start, start⟩)) := by
        refine .setMember rfl rfl ?_ (Or.inr ⟨hnone, howner⟩)
        rw [hmember']
        exact .create i host owner
      exact ⟨⟨hcommit.within.member, fun j hj =>
        (Tables.lookup_insertCommunity _).trans (if_neg hj)⟩, hcommit.changes,
        Or.inr ⟨hnone, howner⟩⟩

/-! ### All operations -/

/-- Every operation is safe, and commits as stated whatever others commit meanwhile. -/
theorem safe_program {op : Op} (hop : op.Called) (hstrict : strict → ¬ op.Bootstraps) :
    Transactions.Safe (Commits strict limit) (op.program limit start)
      (Finishes (Commits strict limit) op.Commit) [] id t := by
  refine Does.finishes composable_commits ?_
  cases op with
  | addRelayMember waits c pubkey role addedBy =>
    exact does_addRelayMember waits c pubkey addedBy hop
  | removeRelayMember c pubkey => exact does_removeRelayMember c pubkey
  | removeRelayMemberIfRole c pubkey role => exact does_removeRelayMemberIfRole c pubkey hop
  | updateRelayMemberRole c pubkey role => exact does_updateRelayMemberRole c pubkey hop
  | bootstrapOwner c owner => exact does_bootstrapOwner c owner fun h => hstrict h trivial
  | transferOwnership c owner expected => exact does_transferOwnership c owner expected
  | createCommunityWithOwner i host owner => exact does_createCommunityWithOwner i host owner

/-! ### One owner -/

section

variable {op : Op} {result : op.Result} {t t' : Tables} {c : Uuid} {pubkey : String}

/-- Whose role concerns owners: a bootstrap, a transfer, or the creation of the community. -/
theorem Op.Changes.owner {o o' : Option Role} (h : op.Changes k o o') (hop : op.Called)
    (hbootstraps : ¬ op.Bootstraps) : (o ≠ some .owner ∧ o' ≠ some .owner) ∨
      (∃ owner expected, op = .transferOwnership k.1 owner expected) ∨
        ∃ host owner, op = .createCommunityWithOwner k.1 host owner := by
  cases h with
  | add => exact .inl ⟨by simp, by simpa [Op.Called] using hop⟩
  | remove c pubkey role hrole => exact .inl ⟨by simpa using hrole, by simp⟩
  | removeIfRole => exact .inl ⟨by simpa [Op.Called] using hop, by simp⟩
  | update c pubkey role role' hrole =>
    exact .inl ⟨by simpa using hrole, by simpa [Op.Called] using hop⟩
  | bootstrap | rotate => exact absurd trivial hbootstraps
  | transfer c owner expected => exact .inr (.inl ⟨owner, expected, rfl⟩)
  | demote c owner expected => exact .inr (.inl ⟨owner, expected, rfl⟩)
  | create c host owner => exact .inr (.inr ⟨host, owner, rfl⟩)

/-- Who owns a community alone goes on to, or has transferred it. -/
theorem Op.Commit.soleOwner (hc : op.Commit result t t') (hop : op.Called)
    (hbootstraps : ¬ op.Bootstraps) (ht : t.Sound) (hsole : t.SoleOwner c pubkey) :
    t'.SoleOwner c pubkey ∨ ∃ owner expected, op = .transferOwnership c owner expected ∧
      toAsciiLowercase expected = pubkey ∧ t'.SoleOwner c (toAsciiLowercase owner) := by
  by_cases htransfer : ∃ owner expected, op = .transferOwnership c owner expected
  · obtain ⟨owner, expected, rfl⟩ := htransfer
    rcases hc.effect with rfl | ⟨-, hexpected, hnew⟩
    · exact .inl hsole
    · exact .inr ⟨owner, expected, rfl, (hsole _).mp hexpected, hnew pubkey hsole⟩
  · by_cases hcreate : ∃ host owner, op = .createCommunityWithOwner c host owner
    · obtain ⟨host, owner, rfl⟩ := hcreate
      rcases hc.effect with rfl | ⟨hnone, -⟩
      · exact .inl hsole
      · -- a community with a member is there
        have hrole := hsole.role
        rw [ht.role_eq_none hnone] at hrole
        cases hrole
    · refine .inl fun pubkey' => ?_
      rw [← hsole pubkey']
      rcases hc.changes (c, pubkey') with heq | hchanges
      · rw [heq]
      · rcases hchanges.owner hop hbootstraps with ⟨hold, hnew⟩ | htransfer' | hcreate'
        · exact iff_of_false hnew hold
        · exact absurd htransfer' htransfer
        · exact absurd hcreate' hcreate

/-- A community that is created has one owner. -/
theorem Op.Commit.founds {host owner : String} {result : CreateCommunityResult}
    (hc : (Op.createCommunityWithOwner c host owner).Commit result t t') (ht : t.Sound)
    (hnew : t.communities.lookup c = none)
    (hcreated : (t'.communities.lookup c).isSome = true) :
    t'.SoleOwner c (toAsciiLowercase owner) := by
  rcases hc.effect with rfl | ⟨-, howner⟩
  · rw [hnew] at hcreated
    cases hcreated
  · refine fun pubkey' => ⟨fun howner' => ?_, fun heq => heq ▸ howner⟩
    have hrole : t.role (c, pubkey') = none := ht.role_eq_none hnew
    rcases hc.changes (c, pubkey') with heq | hchanges
    · rw [heq, hrole] at howner'
      cases howner'
    · rw [hrole, howner'] at hchanges
      cases hchanges
      rfl

end

end Buzz.Db.Members
