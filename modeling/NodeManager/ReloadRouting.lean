import NodeManager.FirstMatch
import NodeManager.ReloadPlans

namespace NodeManager.ReloadRouting

open JsonValues Outcomes UserReload ReloadPlans FirstMatch

/-- The metadata of a connection: its user, and what the rest says of each set of conditions. -/
structure Connection where
  user : String
  holds : Object → Bool

def carries (row : Object) (user : String) : Bool := (userNames row).all (fun names => user ∈ names)

def conditions (row : Object) : Object :=
  without row ["auth_user", "action", "outbound", "method", "no_drop"]

def ruleMatches (c : Connection) (row : Object) : Bool :=
  carries row c.user && c.holds (conditions row)

structure Decision where
  action : String
  method : Option Json
  noDrop : Option Json
  outbound : Option String
  deriving DecidableEq

def decision (row : Object) : Decision where
  action := match text row "action" with
    | none | some "" => "route"
    | some action => action
  method := field row "method"
  noDrop := field row "no_drop"
  outbound := text row "outbound"

def outcome (config row : Object) : Decision × Option Object :=
  (decision row, (text row "outbound").bind (rowTagged (rows config "outbounds")))

def ruleRows (config : Object) : List Object := (rules config).filterMap Json.object?

def route (config : Object) (c : Connection) : Option (Decision × Option Object) :=
  ((ruleRows config).find? (ruleMatches c)).map (outcome config)

/-- The names that connections of an inbound carry. `auth.User` has capital letters, and the users
of a relay are its destinations. The users of a shadowsocks inbound may also be set through the SSM
API, which knows the inbound by its tag: `api` gives their names, which are in no row. -/
def carriedNames (api : String → List String) (inbound : Object) : List String :=
  (rows inbound "users").flatMap (fun user =>
    (user.object?.bind (text · "name")).toList ++ (user.object?.bind (text · "username")).toList ++
      (user.object?.bind (text · "Username")).toList) ++
  (rows inbound "destinations").flatMap
    (fun destination => (destination.object?.bind (text · "name")).toList) ++
  if text inbound "type" = some "shadowsocks" then (text inbound "tag").toList.flatMap api else []

section Users

variable (lib : Library) (api : String → List String) (before after : Object)

def Covered (plan : UserUpdatePlan) (user : String) : Prop :=
  (user ∈ (managedInbounds lib before after).flatMap (namesAround lib after) ∧
    user ∉ plan.changedNames) ∨
    user ∈ (unmanagedInbounds lib before after).flatMap (carriedNames api) ∨ user = ""

/-- A user of an inbound that is left alone, by a name the planner does not see. -/
def Overlooked (user : String) : Prop :=
  user ∈ (unmanagedInbounds lib before after).flatMap (carriedNames api) ∧
    user ∉ (unmanagedInbounds lib before after).flatMap blockedNames

end Users

def rulesFor (config : Object) (user : String) : List Object :=
  (ruleRows config).filter (carries · user)

def SameRules (before after : Object) (user : String) : Prop :=
  Alike conditions (rulesFor before user) (rulesFor after user) (outcome before) (outcome after)

theorem route_eq_firstWith (config : Object) (c : Connection) :
    route config c = (firstWith conditions (rulesFor config c.user) c.holds).map
    (outcome config) := by
  unfold route firstWith rulesFor
  rw [List.find?_filter]
  congr 2
  funext row
  simp [ruleMatches]

def normalized (row : Object) : Object := without row ["auth_user"]

def appliesTo (user : String) (value : Json) : List Object :=
  (value.object?.toList.filter (carries · user)).map normalized

def slot (p : Policies) (user : String) (k : Nat) : List Object :=
  ((p.of user).filter (·.sectionIndex = k)).map PolicyEntry.rule

def blend (p : Policies) (user : String) : List Object :=
  (List.range p.fixed.length).flatMap
    (fun k => slot p user k ++ p.fixed[k]?.toList.flatMap (appliesTo user)) ++
    slot p user p.fixed.length

variable {p : Policies} {user : String}

theorem blend_congr {q : Policies} (hfixed : p.fixed = q.fixed) (hof : p.of user = q.of user) :
    blend p user = blend q user := by
  simp only [blend, slot, hfixed, hof]

theorem blend_fixed (hbounded : ∀ entry ∈ p.entries, entry.sectionIndex ≤ p.fixed.length)
    (value : Json) :
    blend { p with fixed := p.fixed ++ [value] } user = blend p user ++ appliesTo user value := by
  have hslot : slot p user (p.fixed.length + 1) = [] := by
    simp only [slot, Policies.of, List.filter_filter, List.map_eq_nil_iff, List.filter_eq_nil_iff]
    intro entry hentry h
    have := hbounded entry hentry
    simp at h
    omega
  have hrange : (List.range p.fixed.length).flatMap (fun k => slot p user k ++
        (p.fixed ++ [value])[k]?.toList.flatMap (appliesTo user)) =
      (List.range p.fixed.length).flatMap
      (fun k => slot p user k ++ p.fixed[k]?.toList.flatMap (appliesTo user)) := by
    refine List.flatMap_congr (fun k hk => ?_)
    rw [List.getElem?_append_left (List.mem_range.mp hk)]
  have hsame (k : Nat) : slot { p with fixed := p.fixed ++ [value] } user k = slot p user k := rfl
  simp only [blend, hsame, List.length_append, List.length_singleton, List.range_succ,
    List.flatMap_append, hrange, hslot]
  simp

theorem rules_of_names (names : List String) (user : String) (n k : Nat) (rule : Object) :
    (((names.map (fun name => (⟨name, n, rule⟩ : PolicyEntry))).filter (·.name = user)).filter
        (·.sectionIndex = k)).map PolicyEntry.rule = if k = n then
        List.replicate (names.count user) rule else [] := by
  induction names with
  | nil => simp
  | cons name names ih =>
    by_cases hname : name = user
    · by_cases hk : n = k
      · simp_all [List.replicate_succ]
      · simp_all [Ne.symm hk]
    · simp_all

theorem slot_append (p : Policies) (user : String) (k : Nat) (names : List String) (rule : Object) :
    slot { p with
      entries := p.entries ++ names.map (fun name => ⟨name, p.fixed.length, rule⟩) } user k =
      slot p user k ++ if k = p.fixed.length then List.replicate (names.count user) rule
      else [] := by
  rw [← rules_of_names]
  simp only [slot, Policies.of, List.filter_append, List.map_append]

theorem blend_entries (p : Policies) (user : String) (names : List String) (rule : Object) :
    blend { p with
      entries := p.entries ++ names.map (fun name => ⟨name, p.fixed.length, rule⟩) } user =
      blend p user ++ List.replicate (names.count user) rule := by
  have hrange : (List.range p.fixed.length).flatMap (fun k =>
        (slot p user k ++ if k = p.fixed.length then
          List.replicate (names.count user) rule
          else []) ++ p.fixed[k]?.toList.flatMap (appliesTo user)) =
      (List.range p.fixed.length).flatMap
      (fun k => slot p user k ++ p.fixed[k]?.toList.flatMap (appliesTo user)) := by
    refine List.flatMap_congr (fun k hk => ?_)
    rw [if_neg (Nat.ne_of_lt (List.mem_range.mp hk)), List.append_nil]
  simp only [blend, slot_append, hrange, if_true]
  rw [List.append_assoc]

theorem addRule_cases {scope : Scope} {change : OutboundChange} {p' : Policies} {value : Json}
    (h : addRule scope change p value = .ok p') :
    ∃ row, value = .obj row ∧
      ((references change.changed value = false ∧ p' = { p with fixed := p.fixed ++ [value] }) ∨
        ∃ names, dynamicRule row scope.known scope.blocked = true ∧ userNames row = some names ∧
          p' = { p with
            entries := p.entries ++ names.map
              (fun name => ⟨name, p.fixed.length, normalized row⟩) }) := by
  unfold addRule at h
  split at h
  · cases h
  next row hrow =>
    refine ⟨row, object?_eq_some.mp hrow, ?_⟩
    split at h
    · split at h
      · cases h
      next hreference =>
        cases h
        exact .inl ⟨by simpa using hreference, rfl⟩
    next hdynamic =>
      split at h
      · cases h
      have hd : dynamicRule row scope.known scope.blocked = true := not_not.mp hdynamic
      cases hnames : userNames row with
      | none =>
        unfold dynamicRule at hd
        rw [hnames] at hd
        cases hd
      | some names =>
        rw [hnames] at h
        cases h
        exact .inr ⟨names, hd, rfl, rfl⟩

theorem dynamicRule_names {row : Object} {known blocked names : List String}
    (h : dynamicRule row known blocked = true) (hnames : userNames row = some names) :
    ∀ name ∈ names, name ≠ "" ∧ name ∉ blocked := by
  unfold dynamicRule at h
  simp only [hnames, Bool.and_eq_true, List.all_eq_true, decide_eq_true_eq] at h
  exact h.1.1.1.1

structure Reads (scope : Scope) (change : OutboundChange) (list : List Json)
    (p : Policies) : Prop where
  clean : ∀ value ∈ p.fixed, references change.changed value = false
  named : ∀ entry ∈ p.entries, entry.name ≠ "" ∧ entry.name ∉ scope.blocked
  bounded : ∀ entry ∈ p.entries, entry.sectionIndex ≤ p.fixed.length
  same : ∀ user holds, (list.flatMap (appliesTo user)).find? holds = (blend p user).find? holds

variable {scope : Scope} {change : OutboundChange} {list : List Json}

theorem Reads.addRule {p' : Policies} {value : Json} (hp : Reads scope change list p)
    (h : addRule scope change p value = .ok p') : Reads scope change (list ++ [value]) p' := by
  obtain ⟨row, rfl, ⟨hreference, rfl⟩ | ⟨names, hdynamic, hnames, rfl⟩⟩ := addRule_cases h
  · refine ⟨?_, hp.named, fun entry hentry => ?_, fun user holds => ?_⟩
    · simpa [or_imp, forall_and] using ⟨hp.clean, hreference⟩
    · simpa using Nat.le_succ_of_le (hp.bounded entry hentry)
    · rw [blend_fixed hp.bounded, List.flatMap_append, List.find?_append,
        List.find?_append, hp.same]
      simp
  · have hnew := dynamicRule_names hdynamic hnames
    refine ⟨hp.clean, ?_, ?_, fun user holds => ?_⟩
    · intro entry hentry
      obtain hentry | hentry := List.mem_append.mp hentry
      · exact hp.named entry hentry
      · obtain ⟨name, hname, rfl⟩ := List.mem_map.mp hentry
        exact hnew name hname
    · intro entry hentry
      obtain hentry | hentry := List.mem_append.mp hentry
      · exact hp.bounded entry hentry
      · obtain ⟨name, -, rfl⟩ := List.mem_map.mp hentry
        exact Nat.le_refl _
    · rw [blend_entries, List.flatMap_append, List.find?_append, List.find?_append, hp.same,
        List.find?_replicate]
      -- a name that stands twice in a rule gives its policy the rule twice
      by_cases huser : user ∈ names
      · have hcount : names.count user ≠ 0 := (List.count_pos_iff.mpr huser).ne'
        simp [appliesTo, Json.object?, carries, hnames, huser, hcount]
      · simp [appliesTo, Json.object?, carries, hnames, huser, List.count_eq_zero.mpr huser]

theorem reads (h : policies scope change list = .ok p) : Reads scope change list p :=
  foldlM_ok (motive := Reads scope change) (fun _ _ _ _ _ hp hstep => hp.addRule hstep)
    ⟨by simp, by simp, by simp, fun _ _ => rfl⟩ h

theorem outcome_normalized (config row : Object) :
    outcome config (normalized row) = outcome config row := by
  simp [outcome, decision, normalized, text_without, field_without]

theorem conditions_normalized (row : Object) : conditions (normalized row) = conditions row :=
  without_without row (by decide)

theorem rulesFor_normalized (config : Object) (user : String) :
    (rulesFor config user).map normalized = (rules config).flatMap (appliesTo user) := by
  unfold rulesFor ruleRows
  induction rules config with
  | nil => rfl
  | cons value list ih =>
    rw [List.flatMap_cons, ← ih]
    cases hvalue : value.object? with
    | none => simp [appliesTo, hvalue]
    | some row =>
      by_cases hrow : carries row user = true <;> simp [appliesTo, hvalue, hrow]

theorem route_eq_appliesTo (config : Object) (c : Connection) : route config c =
    (((rules config).flatMap (appliesTo c.user)).find? (c.holds ∘ conditions)).map
    (outcome config) := by
  have hconditions : (c.holds ∘ conditions) ∘ normalized = c.holds ∘ conditions := by
    funext row
    simp only [Function.comp_apply, conditions_normalized]
  have houtcome : outcome config ∘ normalized = outcome config := by
    funext row
    exact outcome_normalized config row
  rw [route_eq_firstWith, firstWith, ← rulesFor_normalized, List.find?_map, Option.map_map,
    hconditions, houtcome]

theorem mem_blend {row : Object} (h : row ∈ blend p user) :
    (∃ entry ∈ p.of user, entry.rule = row) ∨ ∃ value ∈ p.fixed, row ∈ appliesTo user value := by
  have hslot (k : Nat) (hrow : row ∈ slot p user k) : ∃ entry ∈ p.of user, entry.rule = row := by
    obtain ⟨entry, hentry, heq⟩ := List.mem_map.mp hrow
    exact ⟨entry, (List.mem_filter.mp hentry).1, heq⟩
  obtain h | h := List.mem_append.mp h
  · obtain ⟨k, -, hk⟩ := List.mem_flatMap.mp h
    obtain hk | hk := List.mem_append.mp hk
    · exact .inl (hslot k hk)
    · obtain ⟨value, hvalue, hrow⟩ := List.mem_flatMap.mp hk
      exact .inr ⟨value, List.mem_of_getElem? (Option.mem_toList.mp hvalue), hrow⟩
  · exact .inl (hslot _ h)

section

variable {lib : Library} {before after : Object} {plan : UserUpdatePlan} {s : Stages}
  {c : Connection}

theorem outcome_same (h : Accepted lib before after plan s) {row : Object}
    (hrow : referencesFields (s.change after).changed row = false) :
    outcome before row = outcome after row := by
  refine Prod.ext rfl ?_
  cases htext : text row "outbound" with
  | none => simp [outcome, htext]
  | some tag =>
    have hsame := h.outbound_same (text_outbound_not_mem hrow htext)
    rw [get?_namedRows h.oldOut, get?_namedRows h.newOut] at hsame
    simpa [outcome, htext] using hsame

theorem route_steady (h : Accepted lib before after plan s)
    (hof : s.oldPolicies.of c.user = s.newPolicies.of c.user)
    (hclean : ∀ entry ∈ s.oldPolicies.of c.user,
    referencesFields (s.change after).changed entry.rule = false) :
    route before c = route after c := by
  have hold := reads h.oldPolicies
  rw [route_eq_appliesTo, route_eq_appliesTo, hold.same,
    (reads h.newPolicies).same, ← blend_congr h.fixed hof]
  cases hfind : (blend s.oldPolicies c.user).find? (c.holds ∘ conditions) with
  | none => rfl
  | some row =>
    refine congrArg some ?_
    obtain ⟨entry, hentry, rfl⟩ | ⟨value, hvalue, hrow⟩ :=
      mem_blend (List.mem_of_find?_eq_some hfind)
    · exact outcome_same h (hclean entry hentry)
    obtain ⟨row, hmem, rfl⟩ := List.mem_map.mp hrow
    rw [outcome_normalized, outcome_normalized]
    refine outcome_same h ?_
    have hobject := Option.mem_toList.mp (List.mem_filter.mp hmem).1
    have hreference := hold.clean value hvalue
    rwa [object?_eq_some.mp hobject, references] at hreference

theorem of_unlisted {list : List Json} {p : Policies} {user : String}
    (hp : Reads scope change list p) (huser : user = "" ∨ user ∈ scope.blocked) :
    p.of user = [] := by
  refine List.filter_eq_nil_iff.mpr (fun entry hentry hname => ?_)
  obtain ⟨hempty, hblocked⟩ := hp.named entry hentry
  rw [of_decide_eq_true hname] at hempty hblocked
  exact huser.elim hempty hblocked

theorem route_unlisted (h : Accepted lib before after plan s)
    (hc : c.user = "" ∨ c.user ∈ s.scope.blocked) :
    route before c = route after c := by
  have hold := of_unlisted (reads h.oldPolicies) hc
  refine route_steady h (hold.trans (of_unlisted (reads h.newPolicies) hc).symm) ?_
  rw [hold]
  exact nofun

theorem route_unchanged (h : Accepted lib before after plan s) (hknown : c.user ∈ s.scope.known)
    (hc : c.user ∉ plan.changedNames) : route before c = route after c := by
  rw [h.changedNames, List.mem_filter] at hc
  have hpolicy : policyChanged (s.change after) s.oldPolicies s.newPolicies c.user = false := by
    simpa [hknown] using hc
  simp only [policyChanged, Bool.or_eq_false_iff, decide_eq_false_iff_not, not_not,
    List.any_eq_false] at hpolicy
  exact route_steady h hpolicy.1 (fun entry hentry => by
    simpa using hpolicy.2 entry (List.mem_append_left _ hentry))

/-- The routing of users that an update does not touch is kept exactly when the rules for the
overlooked users decide alike: the planner's checks keep every other user. -/
theorem covered_routing_kept_iff (api : String → List String)
    (h : planUserUpdate lib before after = .ok plan) :
    (∀ c : Connection, Covered lib api before after plan c.user → route before c = route after c) ↔
      ∀ user, Overlooked lib api before after user → SameRules before after user := by
  obtain ⟨s, hs⟩ := accepted h
  have hblocked : s.scope.blocked = (unmanagedInbounds lib before after).flatMap blockedNames := by
    simp [Stages.scope, Scope.settle, hs.scanned_eq]
  constructor
  · intro hroute user huser
    refine alike_of_firstWith (fun holds => ?_)
    have hc := hroute ⟨user, holds⟩ (.inr (.inl huser.1))
    rwa [route_eq_firstWith, route_eq_firstWith] at hc
  · intro hrules c hc
    by_cases hmem : c.user ∈ (unmanagedInbounds lib before after).flatMap blockedNames
    · exact route_unlisted hs (.inr (hblocked ▸ hmem))
    obtain ⟨hknown, hunchanged⟩ | hcarried | hempty := hc
    · refine route_unchanged hs ?_ hunchanged
      rw [Stages.scope, Scope.settle, hs.scanned_eq]
      exact List.mem_dedup.mpr (List.mem_filter.mpr ⟨hknown, decide_eq_true hmem⟩)
    · rw [route_eq_firstWith, route_eq_firstWith]
      exact (hrules c.user ⟨hcarried, hmem⟩).firstWith_eq c.holds
    · exact route_unlisted hs (.inl hempty)

end

/-- A VLESS inbound for alice, an HTTP inbound for bob and a managed shadowsocks inbound, with the
rules given. -/
def threeInbounds (rules : List Json) : Object :=
  [("inbounds", .arr
      [.obj [("tag", .str "vless-in"), ("type", .str "vless"),
        ("users", .arr [.obj [("name", .str "alice"), ("uuid", .str "5f3c")]])],
      .obj [("tag", .str "http-in"), ("type", .str "http"),
        ("users", .arr [.obj [("Password", .str "secret"), ("Username", .str "bob")]])],
      .obj [("managed", .bool true), ("tag", .str "ss-in"), ("type", .str "shadowsocks")]]),
    ("outbounds", .arr [.obj [("tag", .str "direct"), ("type", .str "direct")]]),
    ("route", .obj [("rules", .arr rules)])]

def carolOnly : String → List String
  | "ss-in" => ["carol"]
  | _ => []

def rejects (users : List String) : Json :=
  .obj [("action", .str "reject"), ("auth_user", .arr (users.map .str))]

def rejectPlan : UserUpdatePlan where
  inboundIndexes := [0]
  outboundIndexes := []
  removedOutbounds := []
  ruleIndexes := [none]
  changedNames := ["alice"]

def plainLibrary : Library := ⟨id, fun _ => ""⟩

theorem alice_rejected_routing_kept :
    planUserUpdate plainLibrary (threeInbounds []) (threeInbounds [rejects ["alice"]]) =
    .ok rejectPlan ∧
      ∀ c : Connection,
        Covered plainLibrary carolOnly (threeInbounds []) (threeInbounds [rejects ["alice"]])
        rejectPlan c.user →
          route (threeInbounds []) c = route (threeInbounds [rejects ["alice"]]) c := by
  have hplan : planUserUpdate plainLibrary (threeInbounds []) (threeInbounds [rejects ["alice"]]) =
    .ok rejectPlan :=
    rfl
  have hrules : ∀ user ∈ ["bob", "carol"],
    rulesFor (threeInbounds [rejects ["alice"]]) user = [] := by decide
  refine ⟨hplan, (covered_routing_kept_iff carolOnly hplan).mpr (fun user huser => ?_)⟩
  rw [SameRules, hrules user huser.1]
  exact ⟨fun _ => rfl, fun _ _ hdiff => absurd rfl hdiff⟩

/-- The update that rejects alice may reject the user as well. -/
def RejectedToo (user : String) : Prop :=
  planUserUpdate plainLibrary (threeInbounds []) (threeInbounds [rejects ["alice", user]]) =
    .ok rejectPlan ∧
    ∃ c : Connection, c.user = user ∧
      Covered plainLibrary carolOnly (threeInbounds []) (threeInbounds [rejects ["alice", user]])
      rejectPlan c.user ∧
        route (threeInbounds []) c ≠ route (threeInbounds [rejects ["alice", user]]) c

/-- The planner takes bob and carol for aliases that are not installed. -/
theorem unseen_user_rejected : RejectedToo "bob" ∧ RejectedToo "carol" := by
  have hcarried : ∀ user ∈ ["bob", "carol"],
      user ∈ (unmanagedInbounds plainLibrary (threeInbounds [])
        (threeInbounds [rejects ["alice", user]])).flatMap (carriedNames carolOnly) := by decide
  have hroute : ∀ user ∈ ["bob", "carol"], route (threeInbounds []) ⟨user, fun _ => true⟩ ≠
      route (threeInbounds [rejects ["alice", user]]) ⟨user, fun _ => true⟩ := by decide
  refine ⟨⟨rfl, ⟨"bob", fun _ => true⟩, rfl, .inr (.inl (hcarried _ ?_)), hroute _ ?_⟩,
    rfl, ⟨"carol", fun _ => true⟩, rfl, .inr (.inl (hcarried _ ?_)), hroute _ ?_⟩ <;> decide

end NodeManager.ReloadRouting
