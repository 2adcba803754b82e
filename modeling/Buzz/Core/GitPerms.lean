import Mathlib.Data.List.Basic
import Mathlib.Data.List.Infix
import Mathlib.Data.List.Perm.Basic
import Mathlib.Tactic.Common

/-!
# Git push policy: protection rules and their evaluation

The relay decides a push by unioning the `buzz-protect` rules that match each updated ref and
comparing the result with the pusher's channel role (`crates/buzz-core/src/git_perms.rs`). This
file embeds the data types of that module, the ref patterns with their parser, the union of the
matching rules (`EffectiveRules.forRef`) and the two evaluators `evaluateRefUpdate` and
`evaluatePush`.

The evaluators fold the rules with three different combinators and skip the explicit path as soon
as no rule matches. The characterisation `evaluateRefUpdate_eq_ok_iff` shows that both paths
decide one condition, `Permits`: the role reaches the built-in default, and every matching rule
permits the update on its own. Order independence, monotonicity in the role and antitonicity in
the rules are read off from it.

## Main definitions

* `MemberRole`, `MemberRole.permissionLevel`, `MemberRole.hasAtLeast`.
* `RefPattern`, `RefPattern.parse`, `RefPattern.matchesRef`: patterns carry the fact that a
  recursive wildcard stands last, so that matching has no unreachable branch.
* `EffectiveRules.forRef`, `evaluateRefUpdate`, `evaluatePush`.
* `ProtectionRule.Permits`, `Permits`: the condition the evaluators decide.

## Main results

* `EffectiveRules.forRef_spec`: the union of the matching rules, field by field.
* `evaluateRefUpdate_eq_ok_iff`, `evaluatePush_eq_ok_iff`: what an allowed update and an allowed
  push satisfy.
* `evaluatePush_lattice`: the push policy is order independent, antitone in the rules and monotone
  in the role.
-/

namespace Buzz.Core

/-! ### Roles -/

/-- A member's role within a channel (`channel.rs`, `MemberRole`). -/
inductive MemberRole
  | owner
  | admin
  | member
  | guest
  | bot
  deriving DecidableEq, Repr

namespace MemberRole

/-- Canonical string representation of a role. -/
def asStr : MemberRole → String
  | owner => "owner"
  | admin => "admin"
  | member => "member"
  | guest => "guest"
  | bot => "bot"

/-- Numeric permission level; a bot has level `0` and needs explicit grants. -/
def permissionLevel : MemberRole → ℕ
  | owner => 4
  | admin => 3
  | member => 2
  | guest => 1
  | bot => 0

/-- Whether this role meets or exceeds the level of the required role. -/
def hasAtLeast (self required : MemberRole) : Bool :=
  decide (required.permissionLevel ≤ self.permissionLevel)

@[simp] theorem hasAtLeast_iff {self required : MemberRole} :
    self.hasAtLeast required = true ↔ required.permissionLevel ≤ self.permissionLevel := by
  simp [hasAtLeast]

/-- The stricter of two roles as the rule folds compute it: the later one replaces the earlier
one only at a strictly higher level. -/
def stricter (role existing : MemberRole) : MemberRole :=
  if existing.permissionLevel < role.permissionLevel then role else existing

@[simp] theorem permissionLevel_stricter (role existing : MemberRole) :
    (stricter role existing).permissionLevel =
      max existing.permissionLevel role.permissionLevel := by
  unfold stricter
  split <;> omega

end MemberRole

/-! ### Ref patterns -/

/-- Maximum byte length of a ref pattern. -/
def maxPatternLength : ℕ := 256

/-- Maximum number of wildcard segments per pattern. -/
def maxWildcardsPerPattern : ℕ := 3

/-- A single segment in a ref pattern. -/
inductive PatternSegment
  | literal (lit : String)
  | wildcard
  | recursiveWildcard
  deriving DecidableEq, Repr

/-- Errors from parsing a ref pattern. -/
inductive PatternError
  | empty
  | tooLong
  | missingRefsPrefix
  | invalidSegment (segment : String)
  | tooManyWildcards
  deriving DecidableEq, Repr

/-- The path segments of a ref name or a pattern: `str::split('/')`. -/
def pathSegments (s : String) : List String :=
  (s.toList.splitOn '/').map String.ofList

/-- A validated ref pattern. Only `RefPattern.parse` builds one in the source, so a recursive
wildcard can stand in the last position only; the field records it. -/
structure RefPattern where
  raw : String
  segments : List PatternSegment
  recursive_last : ∀ seg ∈ segments.dropLast, seg ≠ .recursiveWildcard
  deriving DecidableEq

namespace RefPattern

/-- Characters allowed in a literal segment. -/
def isLiteralChar (c : Char) : Bool :=
  c.isAlphanum || c == '.' || c == '_' || c == '-'

/-- Characters that mark a partial glob, which is not allowed. -/
def isGlobChar (c : Char) : Bool :=
  c == '*' || c == '?' || c == '[' || c == ']'

/-- The loop of `RefPattern::parse` over the parts of the pattern, `wildcardCount` wildcards
having been seen. The part is the last one exactly when no part remains. -/
def parseSegments (wildcardCount : ℕ) : List String → Except PatternError (List PatternSegment)
  | [] => .ok []
  | part :: rest =>
    if part = "**" then
      if rest ≠ [] then .error (.invalidSegment "** must be the last segment")
      else if maxWildcardsPerPattern < wildcardCount + 1 then .error .tooManyWildcards
      else (parseSegments (wildcardCount + 1) rest).map (.recursiveWildcard :: ·)
    else if part = "*" then
      if maxWildcardsPerPattern < wildcardCount + 1 then .error .tooManyWildcards
      else (parseSegments (wildcardCount + 1) rest).map (.wildcard :: ·)
    else if part = "" then .error (.invalidSegment "")
    else if part.toList.any isGlobChar then .error (.invalidSegment part)
    else if !part.toList.all isLiteralChar then .error (.invalidSegment part)
    else (parseSegments wildcardCount rest).map (.literal part :: ·)

private theorem map_cons_eq_ok {ε α : Type} {x : Except ε (List α)} {a : α} {l : List α}
    (h : x.map (a :: ·) = .ok l) : ∃ t, x = .ok t ∧ l = a :: t := by
  cases x with
  | error e => simp [Except.map] at h
  | ok t => exact ⟨t, rfl, by simpa [Except.map] using h.symm⟩

theorem parseSegments_recursive_last {wildcardCount : ℕ} {parts : List String}
    {segs : List PatternSegment} (h : parseSegments wildcardCount parts = .ok segs) :
    ∀ seg ∈ segs.dropLast, seg ≠ .recursiveWildcard := by
  induction parts generalizing wildcardCount segs with
  | nil => simp only [parseSegments, Except.ok.injEq] at h; simp [← h]
  | cons part rest ih =>
    -- A segment other than `**` may precede anything; `**` precedes nothing.
    have hcons : ∀ (n : ℕ) (s : PatternSegment), s ≠ .recursiveWildcard ∨ rest = [] →
        (parseSegments n rest).map (s :: ·) = .ok segs →
        ∀ seg ∈ segs.dropLast, seg ≠ .recursiveWildcard := by
      intro n s hs hmap
      obtain ⟨t, ht, rfl⟩ := map_cons_eq_ok hmap
      rcases hs with hs | rfl
      · cases t with
        | nil => simp
        | cons b t =>
          intro seg hseg
          rw [List.dropLast_cons_of_ne_nil (List.cons_ne_nil b t), List.mem_cons] at hseg
          rcases hseg with rfl | hseg
          · exact hs
          · exact ih ht seg hseg
      · simp only [parseSegments, Except.ok.injEq] at ht
        simp [← ht]
    simp only [parseSegments] at h
    split_ifs at h with h₁ h₂ h₃ h₄ h₅ h₆ h₇ h₈
    · exact hcons _ _ (Or.inr (not_not.mp h₂)) h
    · exact hcons _ _ (Or.inl (by simp)) h
    · exact hcons _ _ (Or.inl (by simp)) h

/-- Parse and validate a ref pattern string. -/
def parse (pattern : String) : Except PatternError RefPattern :=
  if pattern = "" then .error .empty
  else if maxPatternLength < pattern.utf8ByteSize then .error .tooLong
  else if !("refs/".toList.isPrefixOf pattern.toList) then .error .missingRefsPrefix
  else
    match h : parseSegments 0 (pathSegments pattern) with
    | .error e => .error e
    | .ok segs => .ok ⟨pattern, segs, parseSegments_recursive_last h⟩

/-- Whether one pattern segment matches one path segment. The recursive wildcard never reaches
this comparison (`recursive_last`). -/
def segmentMatches : PatternSegment → String → Bool
  | .wildcard, _ => true
  | .literal lit, seg => lit == seg
  | .recursiveWildcard, _ => false

/-- Test whether this pattern matches a ref name, segment by segment: `*` matches exactly one
segment and a final `**` matches one or more remaining segments. -/
def matchesRef (self : RefPattern) (refName : String) : Bool :=
  let refSegments := pathSegments refName
  if self.segments.getLast? = some .recursiveWildcard then
    let prefixLen := self.segments.length - 1
    if refSegments.length ≤ prefixLen then false
    else ((self.segments.take prefixLen).zip (refSegments.take prefixLen)).all
      fun p => segmentMatches p.1 p.2
  else if refSegments.length ≠ self.segments.length then false
  else (self.segments.zip refSegments).all fun p => segmentMatches p.1 p.2

end RefPattern

/-! ### Ref updates and protection rules -/

/-- The type of ref update in a push. -/
inductive UpdateKind
  | create
  | fastForward
  | nonFastForward
  | delete
  deriving DecidableEq, Repr

/-- The object id of an absent ref. -/
def zeroOid : String := "0000000000000000000000000000000000000000"

/-- Classify a ref update from its old and new object ids; `isAncestor` is ignored for creates
and deletes. -/
def UpdateKind.classify (oldOid newOid : String) (isAncestor : Bool) : UpdateKind :=
  if oldOid = zeroOid then .create
  else if newOid = zeroOid then .delete
  else if isAncestor then .fastForward
  else .nonFastForward

/-- A single ref update within a push. -/
structure RefUpdate where
  refName : String
  kind : UpdateKind
  oldOid : String
  newOid : String
  deriving DecidableEq, Repr

/-- A single protection rule parsed from a `buzz-protect` tag. -/
structure ProtectionRule where
  pattern : RefPattern
  pushRole : Option MemberRole
  noForcePush : Bool
  noDelete : Bool
  requirePatch : Bool
  deriving DecidableEq

/-- Built-in default minimum role for an operation when no `buzz-protect` tag matches. -/
def defaultMinRole (refName : String) (kind : UpdateKind) : MemberRole :=
  let isBranch := "refs/heads/".toList.isPrefixOf refName.toList
  let isTag := "refs/tags/".toList.isPrefixOf refName.toList
  match kind with
  | .create => if isBranch || isTag then .member else .admin
  | .fastForward => if isBranch then .member else if isTag then .admin else .admin
  | .nonFastForward => .admin
  | .delete => .admin

/-- The effective constraints for a ref after unioning all matching rules. -/
structure EffectiveRules where
  pushRole : Option MemberRole
  noForcePush : Bool
  noDelete : Bool
  requirePatch : Bool
  hasExplicitMatch : Bool
  deriving DecidableEq, Repr

namespace EffectiveRules

/-- The union before any rule is seen. -/
def init : EffectiveRules := ⟨none, false, false, false, false⟩

/-- One iteration of the loop of `EffectiveRules::for_ref`. -/
def addRule (refName : String) (acc : EffectiveRules) (rule : ProtectionRule) : EffectiveRules :=
  if !rule.pattern.matchesRef refName then acc
  else
    { pushRole :=
        match rule.pushRole with
        | none => acc.pushRole
        | some role =>
          match acc.pushRole with
          | none => some role
          | some existing => some (role.stricter existing)
      noForcePush := acc.noForcePush || rule.noForcePush
      noDelete := acc.noDelete || rule.noDelete
      requirePatch := acc.requirePatch || rule.requirePatch
      hasExplicitMatch := true }

/-- Compute effective rules by unioning all protection rules that match a ref. -/
def forRef (refName : String) (rules : List ProtectionRule) : EffectiveRules :=
  rules.foldl (addRule refName) init

end EffectiveRules

/-! ### Evaluation -/

/-- A single denial reason from the policy engine. -/
structure Denial where
  refName : String
  reason : String
  deriving DecidableEq, Repr

/-- The role an explicitly protected update requires: the stricter of the explicit push role and
the built-in default, the explicit one winning a tie. -/
def requiredRole (explicit : Option MemberRole) (default : MemberRole) : MemberRole :=
  match explicit with
  | some explicit =>
    if default.permissionLevel ≤ explicit.permissionLevel then explicit else default
  | none => default

/-- Evaluate a single ref update against effective rules and the pusher's role. -/
def evaluateRefUpdate (update : RefUpdate) (role : MemberRole) (rules : List ProtectionRule) :
    Except Denial Unit :=
  let effective := EffectiveRules.forRef update.refName rules
  if !effective.hasExplicitMatch then
    let minRole := defaultMinRole update.refName update.kind
    if !role.hasAtLeast minRole then
      .error ⟨update.refName, "requires " ++ minRole.asStr ++ " role (you have " ++ role.asStr ++
        "), using built-in defaults"⟩
    else .ok ()
  else if effective.requirePatch then
    .error ⟨update.refName,
      "direct push denied: require-patch is set, submit a NIP-34 patch"⟩
  else
    let minRole := requiredRole effective.pushRole (defaultMinRole update.refName update.kind)
    if !role.hasAtLeast minRole then
      .error ⟨update.refName,
        "requires " ++ minRole.asStr ++ " role (you have " ++ role.asStr ++ ")"⟩
    else if effective.noForcePush && update.kind == .nonFastForward then
      .error ⟨update.refName, "non-fast-forward update denied: no-force-push is set"⟩
    else if effective.noDelete && update.kind == .delete then
      .error ⟨update.refName, "ref deletion denied: no-delete is set"⟩
    else .ok ()

/-- The denial of an evaluation, if any: `Result::err`. -/
def denialOf : Except Denial Unit → Option Denial
  | .ok _ => none
  | .error d => some d

/-- Evaluate an entire push against protection rules; one denied ref rejects the whole push. -/
def evaluatePush (updates : List RefUpdate) (role : MemberRole) (rules : List ProtectionRule) :
    Except (List Denial) Unit :=
  let denials := updates.filterMap fun update => denialOf (evaluateRefUpdate update role rules)
  if denials = [] then .ok () else .error denials

/-! ### The union of the matching rules -/

/-- Every role in an optional push role is within the level `bound`. -/
def RoleWithin (role : Option MemberRole) (bound : ℕ) : Prop :=
  ∀ r, role = some r → r.permissionLevel ≤ bound

namespace EffectiveRules

variable (refName : String)

theorem foldl_addRule_hasExplicitMatch (rules : List ProtectionRule) (acc : EffectiveRules) :
    (rules.foldl (addRule refName) acc).hasExplicitMatch =
      (acc.hasExplicitMatch || rules.any fun rule => rule.pattern.matchesRef refName) := by
  induction rules generalizing acc with
  | nil => simp
  | cons rule rules ih =>
    rw [List.foldl_cons, ih, List.any_cons]
    cases h : rule.pattern.matchesRef refName <;> simp [addRule, h]

/-- A flag of the union is set when it was set before or a matching rule sets it. The three
flags of a rule are folded alike, so they are treated together. -/
theorem foldl_addRule_flags (rules : List ProtectionRule) (acc : EffectiveRules) :
    (rules.foldl (addRule refName) acc).noForcePush =
        (acc.noForcePush || rules.any fun rule => rule.pattern.matchesRef refName &&
          rule.noForcePush) ∧
      (rules.foldl (addRule refName) acc).noDelete =
        (acc.noDelete || rules.any fun rule => rule.pattern.matchesRef refName &&
          rule.noDelete) ∧
      (rules.foldl (addRule refName) acc).requirePatch =
        (acc.requirePatch || rules.any fun rule => rule.pattern.matchesRef refName &&
          rule.requirePatch) := by
  induction rules generalizing acc with
  | nil => simp
  | cons rule rules ih =>
    obtain ⟨hforce, hdelete, hpatch⟩ := ih (addRule refName acc rule)
    simp only [List.foldl_cons, List.any_cons, hforce, hdelete, hpatch]
    cases h : rule.pattern.matchesRef refName <;> simp [addRule, h, Bool.or_assoc]

theorem addRule_roleWithin (acc : EffectiveRules) (rule : ProtectionRule) (bound : ℕ) :
    RoleWithin (addRule refName acc rule).pushRole bound ↔
      RoleWithin acc.pushRole bound ∧
        (rule.pattern.matchesRef refName = true → RoleWithin rule.pushRole bound) := by
  cases h : rule.pattern.matchesRef refName
  · simp [addRule, h]
  · cases hrole : rule.pushRole <;> cases hacc : acc.pushRole <;>
      simp [addRule, h, hrole, hacc, RoleWithin, Nat.max_le]

theorem foldl_addRule_roleWithin (rules : List ProtectionRule) (acc : EffectiveRules)
    (bound : ℕ) :
    RoleWithin (rules.foldl (addRule refName) acc).pushRole bound ↔
      RoleWithin acc.pushRole bound ∧ ∀ rule ∈ rules,
        rule.pattern.matchesRef refName = true → RoleWithin rule.pushRole bound := by
  induction rules generalizing acc with
  | nil => simp
  | cons rule rules ih =>
    rw [List.foldl_cons, ih, addRule_roleWithin, List.forall_mem_cons, and_assoc]

/-- The union of the matching rules, field by field. -/
theorem forRef_spec (rules : List ProtectionRule) :
    ((forRef refName rules).hasExplicitMatch = true ↔
        ∃ rule ∈ rules, rule.pattern.matchesRef refName = true) ∧
      ((forRef refName rules).noForcePush = true ↔
        ∃ rule ∈ rules, rule.pattern.matchesRef refName = true ∧ rule.noForcePush = true) ∧
      ((forRef refName rules).noDelete = true ↔
        ∃ rule ∈ rules, rule.pattern.matchesRef refName = true ∧ rule.noDelete = true) ∧
      ((forRef refName rules).requirePatch = true ↔
        ∃ rule ∈ rules, rule.pattern.matchesRef refName = true ∧ rule.requirePatch = true) ∧
      ∀ bound, RoleWithin (forRef refName rules).pushRole bound ↔
        ∀ rule ∈ rules, rule.pattern.matchesRef refName = true →
          RoleWithin rule.pushRole bound := by
  have hmatch := foldl_addRule_hasExplicitMatch refName rules init
  obtain ⟨hforce, hdelete, hpatch⟩ := foldl_addRule_flags refName rules init
  have hrole := foldl_addRule_roleWithin refName rules init
  have hinit : ∀ bound, RoleWithin init.pushRole bound := by simp [RoleWithin, init]
  simp only [forRef, hmatch, hforce, hdelete, hpatch, hrole, hinit, true_and]
  simp [init]

end EffectiveRules

/-! ### What the evaluators decide -/

/-- What a single rule asks of an update it matches. -/
structure ProtectionRule.Permits (rule : ProtectionRule) (role : MemberRole)
    (update : RefUpdate) : Prop where
  patch : rule.requirePatch = false
  push : ∀ required, rule.pushRole = some required → role.hasAtLeast required = true
  force : update.kind = .nonFastForward → rule.noForcePush = false
  delete : update.kind = .delete → rule.noDelete = false

/-- The condition under which an update is allowed: the role reaches the built-in default, and
every matching rule permits the update. -/
structure Permits (update : RefUpdate) (role : MemberRole) (rules : List ProtectionRule) :
    Prop where
  default : role.hasAtLeast (defaultMinRole update.refName update.kind) = true
  rules : ∀ rule ∈ rules, rule.pattern.matchesRef update.refName = true →
    rule.Permits role update

theorem hasAtLeast_requiredRole (role : MemberRole) (explicit : Option MemberRole)
    (default : MemberRole) :
    role.hasAtLeast (requiredRole explicit default) = true ↔
      RoleWithin explicit role.permissionLevel ∧ role.hasAtLeast default = true := by
  cases explicit with
  | none => simp [requiredRole, RoleWithin]
  | some r =>
    simp only [requiredRole, RoleWithin, MemberRole.hasAtLeast_iff, Option.some.injEq,
      forall_eq']
    split <;> omega

/-- The evaluator in terms of the effective rules: the explicit path runs four checks, the
default path one. -/
theorem evaluateRefUpdate_eq_ok_iff_effective (update : RefUpdate) (role : MemberRole)
    (rules : List ProtectionRule) :
    evaluateRefUpdate update role rules = .ok () ↔
      if (EffectiveRules.forRef update.refName rules).hasExplicitMatch = true then
        (EffectiveRules.forRef update.refName rules).requirePatch = false ∧
        role.hasAtLeast (requiredRole (EffectiveRules.forRef update.refName rules).pushRole
          (defaultMinRole update.refName update.kind)) = true ∧
        ¬ ((EffectiveRules.forRef update.refName rules).noForcePush = true ∧
          update.kind = .nonFastForward) ∧
        ¬ ((EffectiveRules.forRef update.refName rules).noDelete = true ∧ update.kind = .delete)
      else role.hasAtLeast (defaultMinRole update.refName update.kind) = true := by
  unfold evaluateRefUpdate
  generalize EffectiveRules.forRef update.refName rules = effective
  dsimp only
  generalize role.hasAtLeast (requiredRole effective.pushRole _) = reached
  simp only [Bool.not_eq_true', Bool.and_eq_true, beq_iff_eq]
  split_ifs <;> simp_all

/-- An update is allowed exactly when the role reaches the default and every matching rule
permits it; the switch from the default path to the explicit path leaves no trace. -/
theorem evaluateRefUpdate_eq_ok_iff (update : RefUpdate) (role : MemberRole)
    (rules : List ProtectionRule) :
    evaluateRefUpdate update role rules = .ok () ↔ Permits update role rules := by
  obtain ⟨hmatch, hforce, hdelete, hpatch, hrole⟩ :=
    EffectiveRules.forRef_spec update.refName rules
  rw [evaluateRefUpdate_eq_ok_iff_effective]
  by_cases hany : ∃ rule ∈ rules, rule.pattern.matchesRef update.refName = true
  · -- Explicit path: every check is the conjunction over the matching rules.
    rw [if_pos (hmatch.mpr hany), hasAtLeast_requiredRole, ← Bool.not_eq_true, hpatch,
      hrole, hforce, hdelete]
    constructor
    · rintro ⟨hp, ⟨hr, hd⟩, hf, hx⟩
      refine ⟨hd, fun rule hmem hm => ⟨?_, ?_, ?_, ?_⟩⟩
      · exact Bool.eq_false_iff.mpr fun h => hp ⟨rule, hmem, hm, h⟩
      · exact fun required hreq => MemberRole.hasAtLeast_iff.mpr (hr rule hmem hm required hreq)
      · exact fun hk => Bool.eq_false_iff.mpr fun h => hf ⟨⟨rule, hmem, hm, h⟩, hk⟩
      · exact fun hk => Bool.eq_false_iff.mpr fun h => hx ⟨⟨rule, hmem, hm, h⟩, hk⟩
    · rintro ⟨hd, hall⟩
      refine ⟨?_, ⟨fun rule hmem hm required hreq => ?_, hd⟩, ?_, ?_⟩
      · rintro ⟨rule, hmem, hm, h⟩
        simp [(hall rule hmem hm).patch] at h
      · exact MemberRole.hasAtLeast_iff.mp ((hall rule hmem hm).push required hreq)
      · rintro ⟨⟨rule, hmem, hm, h⟩, hk⟩
        simp [(hall rule hmem hm).force hk] at h
      · rintro ⟨⟨rule, hmem, hm, h⟩, hk⟩
        simp [(hall rule hmem hm).delete hk] at h
  · -- Default path: no rule matches, so the rules ask nothing.
    rw [if_neg (hmatch.not.mpr hany)]
    exact ⟨fun hd => ⟨hd, fun rule hmem hm => absurd ⟨rule, hmem, hm⟩ hany⟩,
      fun h => h.default⟩

theorem denialOf_eq_none {x : Except Denial Unit} : denialOf x = none ↔ x = .ok () := by
  cases x <;> simp [denialOf]

/-- A push is allowed exactly when every single update is. -/
theorem evaluatePush_eq_ok_iff (updates : List RefUpdate) (role : MemberRole)
    (rules : List ProtectionRule) :
    evaluatePush updates role rules = .ok () ↔
      ∀ update ∈ updates, evaluateRefUpdate update role rules = .ok () := by
  unfold evaluatePush
  simp only [ite_eq_left_iff, reduceCtorEq, imp_false, not_not, List.filterMap_eq_nil_iff,
    denialOf_eq_none]

theorem evaluatePush_eq_ok_iff_permits (updates : List RefUpdate) (role : MemberRole)
    (rules : List ProtectionRule) :
    evaluatePush updates role rules = .ok () ↔
      ∀ update ∈ updates, Permits update role rules := by
  simp only [evaluatePush_eq_ok_iff, evaluateRefUpdate_eq_ok_iff]

theorem Permits.of_subset {update : RefUpdate} {role : MemberRole}
    {rules rules' : List ProtectionRule} (h : Permits update role rules') (hsub : rules ⊆ rules') :
    Permits update role rules :=
  ⟨h.default, fun rule hmem => h.rules rule (hsub hmem)⟩

theorem Permits.of_role_le {update : RefUpdate} {role role' : MemberRole}
    {rules : List ProtectionRule} (h : Permits update role rules)
    (hle : role.permissionLevel ≤ role'.permissionLevel) : Permits update role' rules := by
  have hmono : ∀ required : MemberRole, role.hasAtLeast required = true →
      role'.hasAtLeast required = true := by
    intro required hreq
    rw [MemberRole.hasAtLeast_iff] at hreq ⊢
    exact hreq.trans hle
  refine ⟨hmono _ h.default, fun rule hmem hm => ?_⟩
  have hp := h.rules rule hmem hm
  exact ⟨hp.patch, fun required hreq => hmono _ (hp.push required hreq), hp.force, hp.delete⟩

/-- **The push policy is a monotone, order-independent lattice.** A push is allowed iff every
single update is; permuting the rules or the updates changes nothing; an appended rule never
turns a denied push into an allowed one; a higher role never turns an allowed push into a denied
one; and an allowed update satisfies the built-in default and every matching rule. -/
theorem evaluatePush_lattice (updates : List RefUpdate) (role : MemberRole)
    (rules : List ProtectionRule) :
    (evaluatePush updates role rules = .ok () ↔
      ∀ update ∈ updates, evaluateRefUpdate update role rules = .ok ()) ∧
    (∀ rules', rules.Perm rules' →
      (evaluatePush updates role rules = .ok () ↔ evaluatePush updates role rules' = .ok ())) ∧
    (∀ updates', updates.Perm updates' →
      (evaluatePush updates role rules = .ok () ↔ evaluatePush updates' role rules = .ok ())) ∧
    (∀ rule, evaluatePush updates role rules ≠ .ok () →
      evaluatePush updates role (rules ++ [rule]) ≠ .ok ()) ∧
    (∀ role' : MemberRole, role.permissionLevel ≤ role'.permissionLevel →
      evaluatePush updates role rules = .ok () → evaluatePush updates role' rules = .ok ()) ∧
    (∀ update, evaluateRefUpdate update role rules = .ok () →
      role.hasAtLeast (defaultMinRole update.refName update.kind) = true ∧
      ∀ rule ∈ rules, rule.pattern.matchesRef update.refName = true →
        rule.requirePatch = false ∧
        (update.kind = .nonFastForward → rule.noForcePush = false) ∧
        (update.kind = .delete → rule.noDelete = false) ∧
        ∀ required, rule.pushRole = some required → role.hasAtLeast required = true) := by
  simp only [ne_eq, evaluatePush_eq_ok_iff_permits, evaluateRefUpdate_eq_ok_iff]
  refine ⟨trivial, fun rules' hperm => ?_, fun updates' hperm => ?_, fun rule hdeny hallow => ?_,
    fun role' hle hallow update hmem => ?_, fun update h => ?_⟩
  · exact forall₂_congr fun update _ =>
      ⟨fun h => h.of_subset hperm.symm.subset, fun h => h.of_subset hperm.subset⟩
  · exact ⟨fun h update hmem => h update (hperm.mem_iff.mpr hmem),
      fun h update hmem => h update (hperm.mem_iff.mp hmem)⟩
  · exact hdeny fun update hmem => (hallow update hmem).of_subset (List.subset_append_left _ _)
  · exact (hallow update hmem).of_role_le hle
  · refine ⟨h.default, fun rule hmem hm => ?_⟩
    have hp := h.rules rule hmem hm
    exact ⟨hp.patch, hp.force, hp.delete, hp.push⟩

end Buzz.Core
