import NodeManager.Operations

namespace NodeManager.UserViews

open Text Singbox Identities Occurrences Bindings Credentials Accounts

def entriesFor (names : List String) (inbounds : List Inbound) : List (String × List InboundUser) :=
  inbounds.map (fun inbound => (inbound.tag, inbound.users.filter (·.carries names)))

def outboundsAt (tag : String) (outbounds : List Outbound) : List Outbound :=
  outbounds.filter (·.tag = tag)

/-- A rule as far as the holder of the names can tell: which of them it lists, and what it does. -/
def ruleFor (names : List String) (rule : Rule) : Rule :=
  { rule with authUser := some (.many (sortedSet (rule.names.filter (· ∈ names)))) }

def rulesFor (names : List String) (rules : List Rule) : List Rule :=
  (rules.filter (·.touches names)).map (ruleFor names)

def isGroup (outbound : Outbound) : Bool := outbound.type = .selector || outbound.type = .urltest

def routedTags (names : List String) (rules : List Rule) : List String :=
  (rules.filter (·.touches names)).filterMap (·.outbound)

def reachedTags (s : Node) (v : String) : List String :=
  let routed := routedTags (userAuthNames s.users v) s.rules
  routed ++ (s.outbounds.filter (fun outbound => isGroup outbound && outbound.tag ∈ routed)).flatMap
    (·.outbounds)

structure Untouched (v : String) (s s' : Node) : Prop where
  row : s'.users.get? v = s.users.get? v
  entries : entriesFor (userAuthNames s.users v) s'.inbounds =
    entriesFor (userAuthNames s.users v) s.inbounds
  outbounds : ∀ tag ∈ reachedTags s v, outboundsAt tag s'.outbounds = outboundsAt tag s.outbounds
  rules : rulesFor (userAuthNames s.users v) s'.rules = rulesFor (userAuthNames s.users v) s.rules

variable {names : List String} {names' : List String} {user : InboundUser}
  {f : String → InboundUser → InboundUser} {inbounds : List Inbound} {rules : List Rule}

theorem not_carries_of_disjoint (hd : names'.Disjoint names) (hc : user.carries names = true) :
    user.carries names' = false := by
  obtain ⟨n, hn, hl⟩ := carries_iff.mp hc
  rw [Bool.eq_false_iff, ne_eq, carries_iff]
  rintro ⟨m, hm, hl'⟩
  rcases hl with hl | hl <;> rcases hl' with hl' | hl' <;> rw [hl] at hl' <;> cases hl' <;>
    exact hd hm hn

theorem entriesFor_mapUsers (hkeep : ∀ tag user, user.carries names = true → f tag user = user)
    (hnew : ∀ tag user, Entry inbounds tag user → (f tag user).carries names = true →
      user.carries names = true) :
    entriesFor names (mapUsers f inbounds) = entriesFor names inbounds := by
  unfold entriesFor mapUsers
  rw [List.map_map]
  apply List.map_congr_left
  intro inbound hi
  simp only [Function.comp_apply, Prod.mk.injEq, true_and, List.filter_map]
  have hfilter : inbound.users.filter ((·.carries names) ∘ f inbound.tag) =
      inbound.users.filter (·.carries names) := by
    apply List.filter_congr
    intro user hu
    rw [Function.comp_apply, Bool.eq_iff_iff]
    refine ⟨hnew inbound.tag user ⟨inbound, hi, rfl, hu⟩, ?_⟩
    intro hc
    rw [hkeep _ user hc, hc]
  rw [hfilter]
  conv_rhs => rw [← List.map_id (inbound.users.filter (·.carries names))]
  apply List.map_congr_left
  intro user hu
  exact hkeep _ user (List.mem_filter.mp hu).2

theorem entriesFor_mapUsers_ne {tag : String}
    (hkeep : ∀ tag user, user.carries names = true → f tag user = user)
    (he : Entry inbounds tag user) (hbefore : user.carries names = false)
    (hafter : (f tag user).carries names = true) :
    entriesFor names (mapUsers f inbounds) ≠ entriesFor names inbounds := by
  intro heq
  obtain ⟨inbound, hi, rfl, hu⟩ := he
  unfold entriesFor mapUsers at heq
  rw [List.map_map] at heq
  have hinbound := (Prod.mk.inj (List.map_inj_left.mp heq inbound hi)).2
  rw [List.filter_map] at hinbound
  have hsub : (inbound.users.filter (·.carries names)).Sublist
      (inbound.users.filter ((·.carries names) ∘ f inbound.tag)) := by
    apply List.monotone_filter_right
    intro e hc
    rw [Function.comp_apply, hkeep _ e hc]
    exact hc
  have hlen := congrArg List.length hinbound
  rw [List.length_map] at hlen
  have hmem : user ∈ inbound.users.filter (·.carries names) := by
    rw [hsub.eq_of_length hlen.symm]
    exact List.mem_filter.mpr ⟨hu, hafter⟩
  cases ((List.mem_filter.mp hmem).2).symm.trans hbefore

theorem entriesFor_withoutUsers (hd : names'.Disjoint names) (inbounds : List Inbound) :
    entriesFor names (withoutUsers names' inbounds) = entriesFor names inbounds := by
  unfold entriesFor withoutUsers
  rw [List.map_map]
  apply List.map_congr_left
  intro inbound _
  simp only [Function.comp_apply, Prod.mk.injEq, true_and, List.filter_filter]
  apply List.filter_congr
  intro user _
  cases hc : user.carries names with
  | false => rfl
  | true => rw [not_carries_of_disjoint hd hc, Bool.not_false, Bool.and_self]

theorem outboundsAt_replace {replaced : String → Bool} {outbounds written : List Outbound}
    (hw : ∀ outbound ∈ written, replaced outbound.tag = true) (tag : String) :
    outboundsAt tag (outbounds.filter (fun outbound => !replaced outbound.tag) ++ written) =
      if replaced tag then outboundsAt tag written else outboundsAt tag outbounds := by
  unfold outboundsAt
  rw [List.filter_append, List.filter_filter]
  split_ifs with ht
  · rw [List.filter_eq_nil_iff.mpr, List.nil_append]
    intro outbound _ hc
    simp only [Bool.and_eq_true, decide_eq_true_eq, Bool.not_eq_true'] at hc
    rw [hc.1, ht] at hc
    cases hc.2
  · have hnone : written.filter (·.tag = tag) = [] := by
      apply List.filter_eq_nil_iff.mpr
      intro outbound ho hc
      apply ht
      rw [← hw outbound ho, of_decide_eq_true hc]
    rw [hnone, List.append_nil]
    apply List.filter_congr
    intro outbound _
    by_cases hc : outbound.tag = tag
    · simp [hc, ht]
    · simp [hc]

theorem rulesFor_eq_iff_of_sublist {rules' : List Rule} (hs : rules'.Sublist rules) :
    rulesFor names rules' = rulesFor names rules ↔
      rules'.filter (·.touches names) = rules.filter (·.touches names) := by
  unfold rulesFor
  constructor
  · intro heq
    apply (hs.filter _).eq_of_length
    have hlen := congrArg List.length heq
    rwa [List.length_map, List.length_map] at hlen
  · intro heq
    rw [heq]

theorem rulesFor_filter_iff {keep : Rule → Bool} :
    rulesFor names (rules.filter keep) = rulesFor names rules ↔
      ∀ rule ∈ rules, rule.touches names = true → keep rule = true := by
  rw [rulesFor_eq_iff_of_sublist List.filter_sublist, List.filter_filter]
  constructor
  · intro heq rule hr ht
    have hmem : rule ∈ rules.filter (·.touches names) := List.mem_filter.mpr ⟨hr, ht⟩
    rw [← heq, List.mem_filter, Bool.and_eq_true] at hmem
    exact hmem.2.2
  intro hall
  apply List.filter_congr
  intro rule hr
  cases ht : rule.touches names with
  | false => rfl
  | true => rw [hall rule hr ht, Bool.true_and]

theorem rulesFor_insertAt {index : Nat} {rule : Rule} (ht : rule.touches names = false) :
    rulesFor names (insertAt index rule rules) = rulesFor names rules := by
  rw [rulesFor, @filter_insertAt_of_neg _ (fun r : Rule => r.touches names) _ _ _ ht, rulesFor]

theorem rulesFor_insertAt_of_touches {index : Nat} {rule : Rule} (ht : rule.touches names = true) :
    rulesFor names (insertAt index rule rules) =
      insertAt ((rules.take index).countP (·.touches names)) (ruleFor names rule)
      (rulesFor names rules) := by
  rw [rulesFor, @filter_insertAt_of_pos _ (fun r : Rule => r.touches names) _ _ _ ht,
    map_insertAt, rulesFor]

theorem rulesFor_map_renameRule {x : String} {replaced retained : List String} (hx : x ∉ names)
    (hd : replaced.Disjoint names) (rules : List Rule) :
    rulesFor names (rules.map (renameRule (replaceNames x replaced retained))) =
    rulesFor names rules := by
  have hmem : ∀ (list : List String) (n : String), n ∈ names →
      (n ∈ replaceNames x replaced retained list ↔ n ∈ list) := by
    intro list n hn
    rw [mem_replaceNames]
    constructor
    · rintro (⟨rfl, _⟩ | ⟨hl, _⟩ | ⟨hl, _⟩)
      · exact (hx hn).elim
      · exact hl
      · exact hl
    · intro hl
      exact Or.inr (Or.inl ⟨hl, fun hr => hd hr hn⟩)
  have hview : ∀ rule : Rule, (renameRule (replaceNames x replaced retained) rule).touches names =
      rule.touches names ∧
      ruleFor names (renameRule (replaceNames x replaced retained) rule) = ruleFor names rule := by
    intro rule
    unfold renameRule
    split
    next list hl =>
      have hnames : rule.names = list := by rw [Rule.names, hl]
      have hrename : (Rule.names { rule with
          authUser := some (.many (replaceNames x replaced retained list)) }) =
          replaceNames x replaced retained list := rfl
      refine ⟨?_, ?_⟩
      · rw [Bool.eq_iff_iff, Rule.touches_iff, Rule.touches_iff, hrename, hnames]
        constructor
        · rintro ⟨n, hn, hmemn⟩
          exact ⟨n, (hmem list n hmemn).mp hn, hmemn⟩
        · rintro ⟨n, hn, hmemn⟩
          exact ⟨n, (hmem list n hmemn).mpr hn, hmemn⟩
      · have hset : sortedSet ((replaceNames x replaced retained list).filter (· ∈ names)) =
            sortedSet (list.filter (· ∈ names)) := by
          apply sortedSet_congr
          intro n
          simp only [List.mem_filter, decide_eq_true_eq]
          constructor
          · rintro ⟨hn, hmemn⟩
            exact ⟨(hmem list n hmemn).mp hn, hmemn⟩
          · rintro ⟨hn, hmemn⟩
            exact ⟨(hmem list n hmemn).mpr hn, hmemn⟩
        rw [ruleFor, ruleFor, hrename, hnames, hset]
    next => exact ⟨rfl, rfl⟩
  unfold rulesFor
  rw [List.filter_map, List.map_map]
  have hfilter : rules.filter ((·.touches names) ∘ renameRule (replaceNames x replaced retained)) =
      rules.filter (·.touches names) := List.filter_congr (fun rule _ => (hview rule).1)
  rw [hfilter]
  exact List.map_congr_left (fun rule _ => (hview rule).2)

theorem withoutRoute_map_renameRule (rename : List String → List String) (u : String)
    (rules : List Rule) :
    withoutRoute u (rules.map (renameRule rename)) =
    (withoutRoute u rules).map (renameRule rename) := by
  have hout : ∀ rule : Rule, (renameRule rename rule).outbound = rule.outbound := by
    intro rule
    unfold renameRule
    split <;> rfl
  unfold withoutRoute
  rw [List.filter_map]
  congr 1
  apply List.filter_congr
  intro rule _
  rw [Function.comp_apply, hout]

end NodeManager.UserViews
