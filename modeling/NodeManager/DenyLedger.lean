import NodeManager.DenyRules

namespace NodeManager.DenyLedger

open Text Singbox Identities Occurrences DenyRules

def blocked (m : Metadata) : Bool :=
  m.accessBlocked || m.expirationBlocked || m.enforcementTrafficBlocked

def nonEmpty (list : Option (List String)) : Option (List String) := list.filter (· ≠ [])

/-- The names in the rule that `_remove_expiration_rule` looks for, flagged or not. -/
def expirationTarget (m : Metadata) : Option (List String) :=
  (nonEmpty m.expirationAuthUsers).map normalized

def accessList (m : Metadata) : Option (List String) :=
  if m.accessBlocked then (nonEmpty m.accessBlockedAuthUsers).map normalized else none

def expirationList (m : Metadata) : Option (List String) :=
  if m.expirationBlocked then expirationTarget m else none

def trafficList (m : Metadata) : Option (List String) :=
  if m.enforcementTrafficBlocked then nonEmpty m.enforcementAuthUsers else none

def holds (list : Option (List String)) (names : List String) : Nat :=
  if list = some names then 1 else 0

def owners (m : Metadata) (names : List String) : Nat :=
  holds (accessList m) names + holds (expirationList m) names + holds (trafficList m) names

def copies (p : Rule → Bool) (rules : List Rule) (names : List String) : Nat :=
  (rules.takeWhile p).count (.reject names)

def Passes (p : Rule → Bool) : Prop := ∀ names, p (.reject names) = true

def eraseRule (list : Option (List String)) (rules : List Rule) : List Rule :=
  match list with
  | none => rules
  | some names => rules.erase (.reject names)

@[simp] theorem holds_none (names : List String) : holds none names = 0 := rfl

theorem holds_some (names names' : List String) :
    holds (some names) names' = if names = names' then 1 else 0 := by
  simp [holds]

theorem owners_empty (names : List String) : owners {} names = 0 := rfl

variable {names : List String}

theorem nonEmpty_some (h : names ≠ []) : nonEmpty (some names) = some names := by
  simp [nonEmpty, h]

theorem reject_eq_iff {names' : List String} :
    Rule.reject names = Rule.reject names' ↔ names = names' :=
  ⟨Rule.reject_injective, congrArg _⟩

def Tidy (names : List String) : Prop := names ≠ [] ∧ normalized names = names

def blockNames (s : Node) (userId : String) : List String :=
  sortedSet (userAuthNames s.users userId)

theorem tidy_sortedSet (hne : names ≠ []) (h : "" ∉ names) : Tidy (sortedSet names) := by
  constructor
  · intro hnil
    obtain ⟨n, hn⟩ := List.exists_mem_of_ne_nil names hne
    have hmem : n ∈ sortedSet names := mem_sortedSet.mpr hn
    simp [hnil] at hmem
  have hf : (sortedSet names).filter (· ≠ "") = sortedSet names := by
    apply List.filter_eq_self.mpr
    intro n hn
    have : n ≠ "" := fun he => h (he ▸ mem_sortedSet.mp hn)
    simpa using this
  rw [normalized, hf, sorted_sortedSet]

theorem tidy_blockNames {s : Node} {u : String} (hu : u ≠ "") : Tidy (blockNames s u) :=
  tidy_sortedSet (List.ne_nil_of_mem (authName_mem s.users u)) (empty_not_mem_userAuthNames hu)

theorem tidy_enforcementNames (s : Node) (u : String) : Tidy (enforcementNames s u) := by
  apply tidy_sortedSet (List.ne_nil_of_mem (authName_mem_mappedNames s.inbounds s.users u))
  simp [mappedNames]

variable {p : Rule → Bool}

theorem copies_cons (hp : Passes p) (names : List String) (rules : List Rule)
    (names' : List String) :
    copies p (.reject names :: rules) names' = copies p rules names' + if names = names' then 1
    else 0 := by
  simp only [copies, List.takeWhile_cons, hp names, if_true, List.count_cons, beq_iff_eq,
    reject_eq_iff]

theorem copies_eraseRule {p : Rule → Bool} (hp : Passes p) (list : Option (List String))
    (rules : List Rule) (names : List String) :
    copies p (eraseRule list rules) names = copies p rules names - holds list names := by
  cases list with
  | none => rfl
  | some held =>
    simp only [eraseRule, copies, takeWhile_erase (hp held), count_erase_self_or,
      reject_eq_iff, holds_some]

theorem removeAccessRule_fst (rules : List Rule) (m : Metadata) :
    (removeAccessRule rules m).1 = eraseRule (accessList m) rules := by
  unfold removeAccessRule accessList nonEmpty
  cases hl : m.accessBlockedAuthUsers with
  | none => cases hf : m.accessBlocked <;> rfl
  | some raw =>
    cases raw with
    | nil => cases hf : m.accessBlocked <;> rfl
    | cons n ns => cases hf : m.accessBlocked <;> rfl

theorem removeExpirationRule_fst (rules : List Rule) (m : Metadata) :
    (removeExpirationRule rules m).1 = eraseRule (expirationTarget m) rules := by
  unfold removeExpirationRule expirationTarget nonEmpty
  cases hl : m.expirationAuthUsers with
  | none => rfl
  | some raw =>
    cases raw with
    | nil => rfl
    | cons n ns => rfl

theorem managedExpirationRules_eq (m : Metadata) :
    managedExpirationRules m = (expirationTarget m).toList.map .reject := by
  unfold managedExpirationRules expirationTarget nonEmpty
  cases hl : m.expirationAuthUsers with
  | none => rfl
  | some raw =>
    cases raw with
    | nil => rfl
    | cons n ns => rfl

theorem mem_managedSourceRules {authUsers : List String} {list : Option (List String)} {rule : Rule}
    (hr : rule ∈ managedSourceRules authUsers list) :
    ∃ cidrs, rule = .rejectSources authUsers cidrs := by
  cases list with
  | none => simp [managedSourceRules] at hr
  | some cidrs =>
    cases cidrs with
    | nil => simp [managedSourceRules] at hr
    | cons c cs => exact ⟨c :: cs, List.mem_singleton.mp hr⟩

theorem reject_mem_managedEnforcementRules {m : Metadata} :
    Rule.reject names ∈ managedEnforcementRules m ↔ trafficList m = some names := by
  have hne : ∀ ns cidrs, Rule.reject names ≠ Rule.rejectSources ns cidrs := by
    intro ns cidrs h
    simpa [Rule.reject, Rule.rejectSources] using congrArg Rule.sourceIpCidr h
  unfold managedEnforcementRules trafficList
  cases hl : m.enforcementAuthUsers with
  | none => simp [nonEmpty]
  | some raw =>
    cases raw with
    | nil => simp [nonEmpty]
    | cons n ns =>
      have hsome : nonEmpty (some (n :: ns)) = some (n :: ns) := nonEmpty_some (by simp)
      have hcidr : Rule.reject names ∉
          managedSourceRules (n :: ns) m.enforcementBlockedSourceCidrs := by
        intro hr
        obtain ⟨cidrs, he⟩ := mem_managedSourceRules hr
        exact hne _ _ he
      rw [hsome, List.mem_append, or_iff_left hcidr]
      cases hf : m.enforcementTrafficBlocked with
      | true => simp only [if_true, List.mem_singleton, reject_eq_iff, Option.some.injEq, eq_comm]
      | false => simp

theorem passes_managedEnforcementRules (hp : Passes p)
    (hs : ∀ names cidrs, p (.rejectSources names cidrs) = true) (m : Metadata) :
    ∀ rule ∈ managedEnforcementRules m, p rule = true := by
  intro rule hr
  unfold managedEnforcementRules at hr
  split at hr
  · simp at hr
  · simp at hr
  rw [List.mem_append] at hr
  rcases hr with hr | hr
  · split at hr
    · rw [List.mem_singleton.mp hr]
      exact hp _
    · simp at hr
  · obtain ⟨cidrs, rfl⟩ := mem_managedSourceRules hr
    exact hs _ _

theorem copies_removeManagedEnforcementRules {p : Rule → Bool} (hp : Passes p)
    (hs : ∀ names cidrs, p (.rejectSources names cidrs) = true) (m : Metadata) (rules : List Rule)
    (names : List String) :
    copies p (removeManagedEnforcementRules rules m) names =
      if holds (trafficList m) names = 0 then copies p rules names
      else min (holds (expirationList m) names) (copies p rules names) := by
  have hspared : (if m.expirationBlocked then (managedExpirationRules m).head? else none) =
      (expirationList m).map .reject := by
    rw [managedExpirationRules_eq, expirationList]
    cases m.expirationBlocked with
    | true => cases expirationTarget m <;> rfl
    | false => rfl
  rw [removeManagedEnforcementRules, hspared, copies,
    takeWhile_removeAllBut (passes_managedEnforcementRules hp hs m), count_removeAllBut]
  by_cases ht : trafficList m = some names
  · have hmem := reject_mem_managedEnforcementRules.mpr ht
    have hholds : holds (trafficList m) names ≠ 0 := by simp [holds, ht]
    rw [if_pos hmem, if_neg hholds, copies]
    by_cases he : expirationList m = some names
    · rw [he, Option.map_some, if_pos rfl, holds_some, if_pos rfl]
    have hno : (expirationList m).map Rule.reject ≠ some (Rule.reject names) := by
      intro heq
      obtain ⟨held, hheld, hr⟩ := Option.map_eq_some_iff.mp heq
      exact he (hheld.trans (congrArg some (Rule.reject_injective hr)))
    rw [if_neg hno, holds, if_neg he, Nat.zero_min]
  · have hmem : Rule.reject names ∉ managedEnforcementRules m := fun h =>
      ht (reject_mem_managedEnforcementRules.mp h)
    rw [if_neg hmem, if_pos (by simp [holds, ht]), copies]

end NodeManager.DenyLedger
