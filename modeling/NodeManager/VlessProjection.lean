import Mathlib.Logic.Relation
import NodeManager.Outcomes

namespace NodeManager.VlessProjection

open Outcomes

inductive Names
  | one (name : String)
  | many (names : List String)
  deriving DecidableEq, Repr

def Names.list : Names → List String
  | .one name => [name]
  | .many names => names

structure User where
  name : Option String
  username : Option String := none
  uuid : Option String := none
  deriving DecidableEq, Repr

structure Inbound where
  tag : Option String
  type : String
  listenPort : Option Nat := none
  /-- `multiplex.enabled is True`. -/
  multiplexed : Bool := false
  transport : Bool := false
  users : List User := []
  deriving DecidableEq, Repr

structure Rule (κ : Type) where
  inbound : Names := .many []
  authUser : Names := .many []
  outbound : Option String := none
  rest : κ
  deriving DecidableEq, Repr

/-- `outbounds` are the members of a selector or urltest, `rest` the settings that name no
outbound. -/
structure Outbound (ω : Type) where
  tag : Option String
  detour : Option String := none
  outbounds : List String := []
  rest : ω
  deriving DecidableEq, Repr

structure Config (κ ω : Type) where
  inbounds : List Inbound
  rules : List (Rule κ)
  final : Option String := none
  outbounds : List (Outbound ω)
  experimental : List String := ["clash_api"]
  externalController : String := ""
  deriving DecidableEq, Repr

variable {κ ω μ : Type}

def Config.byTag (config : Config κ ω) (name : Option String) : Option (Outbound ω) :=
  config.outbounds.reverse.find? (fun outbound => outbound.tag = name)

def checkUser (canonicalUuid : String → Option String) (seen : List String × List String)
    (user : User) :
    Except String (List String × List String) :=
  match user.uuid.bind canonicalUuid with
  | none => .error "invalid_vless_uuid"
  | some identifier =>
    let name := user.name.getD ""
    if identifier ∈ seen.1 ∨ name = "" ∨
      name ∈ seen.2 then .error "duplicate_or_missing_vless_identity"
    else .ok (seen.1 ++ [identifier], seen.2 ++ [name])

def keeps (tag : String) (names : List (Option String)) (rule : Rule κ) : Bool :=
  (rule.inbound.list = [] || tag ∈ rule.inbound.list) &&
    (rule.authUser.list = [] || rule.authUser.list.any (fun name => some name ∈ names))

def truthy (name : Option String) : Option String := name.filter (· ≠ "")

def wanted (config : Config κ ω) (rules : List (Rule κ)) : List (Option String) :=
  let named := config.final :: (rules.filterMap (fun rule => truthy rule.outbound)).map some
  named ++ (named.filterMap (fun name =>
    (config.byTag name).bind (fun outbound => truthy outbound.detour))).map some

def keptRules (config : Config κ ω) (tag : String) (inbound : Inbound) : List (Rule κ) :=
  config.rules.filter (keeps tag (inbound.users.map User.name))

def Config.vlessInbound (config : Config κ ω) (tag : String) : Option Inbound :=
  config.inbounds.find? (fun inbound => inbound.tag = some tag ∧ inbound.type = "vless")

def projection (canonicalUuid : String → Option String) (config : Config κ ω) (tag : String) :
    Except String (Config κ ω) :=
  match config.vlessInbound tag with
  | none => .error "vless_20168_required"
  | some inbound => do
    require (inbound.listenPort = some 20168) "vless_20168_required"
    require (¬(inbound.multiplexed ∨ inbound.transport)) "only_nonmultiplexed_tcp_vless_supported"
    let _ ← inbound.users.foldlM (checkUser canonicalUuid) ([], [])
    require (config.experimental = ["clash_api"]) "unsupported_extra_runtime_listener"
    let rules := keptRules config tag inbound
    pure { config with
      inbounds := [inbound]
      rules := rules
      outbounds := config.outbounds.filter (fun outbound => outbound.tag ∈ wanted config rules)
      externalController := "127.0.0.1:9090" }

structure Connection (μ : Type) where
  inbound : String
  user : String
  metadata : μ

def matchesRule (holds : κ → μ → Bool) (c : Connection μ) (rule : Rule κ) : Bool :=
  (rule.inbound.list = [] || c.inbound ∈ rule.inbound.list) &&
    (rule.authUser.list = [] || c.user ∈ rule.authUser.list) && holds rule.rest c.metadata

inductive Verdict (κ ω : Type)
  | rule (rest : κ) (outbound : Option String)
  | final (tag : String)
  | first (outbound : Option (Outbound ω))
  deriving DecidableEq

def verdict (holds : κ → μ → Bool) (config : Config κ ω) (c : Connection μ) : Verdict κ ω :=
  match config.rules.find? (matchesRule holds c) with
  | some rule => .rule rule.rest rule.outbound
  | none =>
    match truthy config.final with
    | some tag => .final tag
    | none => .first config.outbounds.head?

def Selected (config : Config κ ω) : Verdict κ ω → Outbound ω → Prop
  | .rule _ tag, outbound =>
    outbound ∈ config.outbounds ∧ outbound.tag = truthy tag ∧ outbound.tag.isSome
  | .final tag, outbound => outbound ∈ config.outbounds ∧ outbound.tag = some tag
  | .first outbound?, outbound => outbound? = some outbound

def Leads (config : Config κ ω) (outbound next : Outbound ω) : Prop :=
  next ∈ config.outbounds ∧ ∃ tag, next.tag = some tag ∧
    (outbound.detour = some tag ∨ tag ∈ outbound.outbounds)

def Reached (config : Config κ ω) (v : Verdict κ ω) (outbound : Outbound ω) : Prop :=
  ∃ selected, Selected config v selected ∧ Relation.ReflTransGen (Leads config) selected outbound

/-- A rule on the inbound or on none, and on a user of the inbound or on none. -/
def Concerns (inbound : Inbound) (rule : Rule κ) : Prop :=
  (rule.inbound.list = [] ∨ ∃ tag ∈ rule.inbound.list, inbound.tag = some tag) ∧
    (rule.authUser.list = [] ∨ ∃ name ∈ rule.authUser.list, ∃ user ∈ inbound.users,
      user.name = some name)

def Named (config : Config κ ω) (inbound : Inbound) (name : Option String) : Prop :=
  name = config.final ∨
    ∃ rule ∈ config.rules, Concerns inbound rule ∧ rule.outbound = name ∧ name ≠ none ∧
    name ≠ some ""

/-- The name is `final` or the outbound of a rule that concerns the inbound, or the detour of an
outbound of such a name. -/
def Mentioned (config : Config κ ω) (inbound : Inbound) (name : Option String) : Prop :=
  Named config inbound name ∨ ∃ exit outbound, Named config inbound exit ∧
    config.byTag exit = some outbound ∧
    outbound.detour = name ∧ name ≠ none ∧ name ≠ some ""

/-- What stands behind the exit of the connection is mentioned, and so is a first outbound that is
the default. -/
structure Covered (holds : κ → μ → Bool) (config : Config κ ω) (inbound : Inbound)
    (c : Connection μ) : Prop where
  behind : ∀ outbound next, Reached config (verdict holds config c) outbound →
    Leads config outbound next →
    Mentioned config inbound next.tag
  first : ∀ outbound, verdict holds config c = .first (some outbound) →
    Mentioned config inbound outbound.tag

section

variable {canonicalUuid : String → Option String} {config projected : Config κ ω} {tag : String}
  {holds : κ → μ → Bool} {c : Connection μ} {outbound : Outbound ω} {inbound : Inbound}

theorem projection_ok (h : projection canonicalUuid config tag = .ok projected)
    (hinbound : config.vlessInbound tag = some inbound) : projected = { config with
      inbounds := [inbound]
      rules := keptRules config tag inbound
      outbounds := config.outbounds.filter
        (fun outbound => outbound.tag ∈ wanted config (keptRules config tag inbound))
      externalController := "127.0.0.1:9090" } := by
  simp only [projection, hinbound] at h
  obtain ⟨_, -, h⟩ := bind_eq_ok h
  obtain ⟨_, -, h⟩ := bind_eq_ok h
  obtain ⟨_, -, h⟩ := bind_eq_ok h
  obtain ⟨_, -, h⟩ := bind_eq_ok h
  cases h
  rfl

theorem keeps_iff (htag : inbound.tag = some tag) (rule : Rule κ) :
    keeps tag (inbound.users.map User.name) rule = true ↔ Concerns inbound rule := by
  simp only [keeps, Concerns, Bool.and_eq_true, Bool.or_eq_true, decide_eq_true_eq,
    List.any_eq_true, List.mem_map, htag, Option.some.injEq, exists_eq_right']

theorem truthy_eq_some {name : Option String} {tag : String} :
    truthy name = some tag ↔ name = some tag ∧ tag ≠ "" := by
  simp [truthy, Option.filter_eq_some_iff]

theorem mem_wanted_iff (htag : inbound.tag = some tag) (name : Option String) :
    name ∈ wanted config (keptRules config tag inbound) ↔ Mentioned config inbound name := by
  have hnamed : ∀ name : Option String,
      name ∈ config.final :: ((keptRules config tag inbound).filterMap
        (fun rule => truthy rule.outbound)).map some ↔
        Named config inbound name := by
    intro name
    simp only [List.mem_cons, List.mem_map, List.mem_filterMap, keptRules, List.mem_filter,
      keeps_iff htag, truthy_eq_some, Named]
    refine or_congr_right ⟨?_, ?_⟩
    · rintro ⟨tag, ⟨rule, ⟨hrule, hconcerns⟩, houtbound, htag⟩, rfl⟩
      exact ⟨rule, hrule, hconcerns, houtbound, by simp, by simpa using htag⟩
    · rintro ⟨rule, hrule, hconcerns, houtbound, hsome, htag⟩
      obtain ⟨tag, rfl⟩ := Option.ne_none_iff_exists'.mp hsome
      exact ⟨tag, ⟨rule, ⟨hrule, hconcerns⟩, houtbound, by simpa using htag⟩, rfl⟩
  simp only [wanted, List.mem_append, hnamed, List.mem_map, Mentioned]
  refine or_congr_right ⟨?_, ?_⟩
  · rintro ⟨tag, hmem, rfl⟩
    obtain ⟨exit, hexit, houtbound⟩ := List.mem_filterMap.mp hmem
    obtain ⟨outbound, hget, hdetour⟩ := Option.bind_eq_some_iff.mp houtbound
    obtain ⟨hdetour, htag⟩ := truthy_eq_some.mp hdetour
    exact ⟨exit, outbound, (hnamed exit).mp hexit, hget, hdetour, by simp, by simpa using htag⟩
  · rintro ⟨exit, outbound, hexit, hget, hdetour, hsome, htag⟩
    obtain ⟨tag, rfl⟩ := Option.ne_none_iff_exists'.mp hsome
    refine ⟨tag, List.mem_filterMap.mpr ⟨exit, (hnamed exit).mpr hexit, ?_⟩, rfl⟩
    rw [hget, Option.bind_some]
    exact truthy_eq_some.mpr ⟨hdetour, by simpa using htag⟩

theorem keeps_of_matchesRule {names : List (Option String)} {rule : Rule κ}
    (huser : some c.user ∈ names) (h : matchesRule holds c rule = true) :
    keeps c.inbound names rule = true := by
  simp only [matchesRule, keeps, Bool.and_eq_true, Bool.or_eq_true, List.any_eq_true,
    decide_eq_true_eq] at h ⊢
  exact ⟨h.1.1, h.1.2.imp_right (fun hmem => ⟨c.user, hmem, huser⟩)⟩

theorem find?_keptRules (holds : κ → μ → Bool) (huser : some c.user ∈ inbound.users.map User.name) :
    (keptRules config c.inbound inbound).find? (matchesRule holds c) =
    config.rules.find? (matchesRule holds c) := by
  rw [keptRules, List.find?_filter]
  congr 1
  funext rule
  rw [Bool.eq_iff_iff, decide_eq_true_eq]
  exact and_iff_right_of_imp (keeps_of_matchesRule huser)

theorem selected_wanted {rules : List (Rule κ)}
    (hrules : rules.find? (matchesRule holds c) = config.rules.find? (matchesRule holds c))
    (hfirst : ∀ outbound, verdict holds config c = .first (some outbound) →
      outbound.tag ∈ wanted config rules)
    (h : Selected config (verdict holds config c) outbound) :
    outbound.tag ∈ wanted config rules := by
  unfold verdict at h hfirst
  split at h
  next rule hfind =>
    obtain ⟨-, htag, hsome⟩ := h
    obtain ⟨name, hname⟩ := Option.isSome_iff_exists.mp hsome
    have hmem : rule ∈ rules := List.mem_of_find?_eq_some (hrules.trans hfind)
    rw [hname] at htag ⊢
    have hnamed : name ∈ rules.filterMap (fun rule => truthy rule.outbound) :=
      List.mem_filterMap.mpr ⟨rule, hmem, htag.symm⟩
    exact List.mem_append_left _ (List.mem_cons_of_mem _ (List.mem_map_of_mem hnamed))
  next hnone =>
    rw [hnone] at hfirst
    split at h
    next tag hfinal =>
      rw [h.2, ← (Option.filter_eq_some_iff.mp hfinal).1]
      exact List.mem_append_left _ List.mem_cons_self
    next hfinal =>
      rw [hfinal] at hfirst
      exact hfirst outbound (congrArg Verdict.first h)

theorem selected_mem (h : Selected config (verdict holds config c) outbound) :
    outbound ∈ config.outbounds := by
  unfold verdict at h
  split at h
  · exact h.1
  split at h
  · exact h.1
  · exact List.mem_of_mem_head? h

theorem Reached.mem (h : Reached config (verdict holds config c) outbound) :
    outbound ∈ config.outbounds := by
  obtain ⟨selected, hselected, hpath⟩ := h
  cases hpath with
  | refl => exact selected_mem hselected
  | tail _ hleads => exact hleads.1

/-- The projection decides a connection as the configuration does and has every outbound behind the
selected one, if and only if the configuration mentions those by name. -/
theorem projection_preserves_iff (holds : κ → μ → Bool)
    (h : projection canonicalUuid config tag = .ok projected)
    (hinbound : config.vlessInbound tag = some inbound) (c : Connection μ) (hc : c.inbound = tag)
    (huser : ∃ user ∈ inbound.users, user.name = some c.user) :
    (verdict holds projected c = verdict holds config c ∧
        ∀ outbound, Reached config (verdict holds config c) outbound →
        outbound ∈ projected.outbounds) ↔
      Covered holds config inbound c := by
  obtain rfl := projection_ok h hinbound
  subst hc
  have htag : inbound.tag = some c.inbound := by
    have hfound := List.find?_some hinbound
    exact (of_decide_eq_true hfound).1
  have hrules : (keptRules config c.inbound inbound).find? (matchesRule holds c) =
      config.rules.find? (matchesRule holds c) := find?_keptRules holds (List.mem_map.mpr huser)
  have hwanted (name : Option String) : name ∈ wanted config (keptRules config c.inbound inbound) ↔
      Mentioned config inbound name := mem_wanted_iff htag name
  generalize keptRules config c.inbound inbound = rules at hrules hwanted ⊢
  constructor
  · rintro ⟨-, hreached⟩
    have hmentioned : ∀ outbound, Reached config (verdict holds config c) outbound →
        Mentioned config inbound outbound.tag := fun outbound houtbound =>
      (hwanted _).mp (of_decide_eq_true (List.mem_filter.mp (hreached outbound houtbound)).2)
    refine ⟨fun outbound next houtbound hleads => ?_, fun outbound hfirst => ?_⟩
    · obtain ⟨selected, hselected, hpath⟩ := houtbound
      exact hmentioned next ⟨selected, hselected, hpath.tail hleads⟩
    · exact hmentioned outbound ⟨outbound, hfirst ▸ rfl, .refl⟩
  · intro hcovered
    have hfirst : ∀ outbound, verdict holds config c = .first (some outbound) →
      outbound.tag ∈ wanted config rules :=
      fun outbound hverdict => (hwanted _).mpr (hcovered.first outbound hverdict)
    refine ⟨?_, fun outbound houtbound => List.mem_filter.mpr ⟨houtbound.mem, decide_eq_true ?_⟩⟩
    · simp only [verdict, hrules]
      split
      · rfl
      next hnone =>
        split
        · rfl
        next hfinal =>
          cases houtbounds : config.outbounds with
          | nil => rfl
          | cons outbound rest =>
            have hmem : outbound.tag ∈ wanted config rules :=
              hfirst outbound (by simp only [verdict, hnone, hfinal, houtbounds, List.head?_cons])
            rw [List.filter_cons, if_pos (decide_eq_true hmem)]
            rfl
    · obtain ⟨selected, hselected, hpath⟩ := houtbound
      cases hpath with
      | refl => exact selected_wanted hrules hfirst hselected
      | tail hpath hleads =>
        exact (hwanted _).mpr (hcovered.behind _ _ ⟨selected, hselected, hpath⟩ hleads)

end

def sample (outbound : String) (outbounds : List (Outbound Unit)) : Config Unit Unit where
  inbounds :=
    [{ tag := some "vless", type := "vless", listenPort := some 20168,
       users := [⟨some "a", none, some "1"⟩] }]
  rules := [{ authUser := .one "a", outbound := some outbound, rest := () }]
  final := some "direct"
  outbounds := outbounds

def direct : Outbound Unit := { tag := some "direct", rest := () }

def member : Outbound Unit := { tag := some "out-0", rest := () }

def group : Outbound Unit := { tag := some "out", outbounds := ["out-0"], rest := () }

def connection : Connection Unit := ⟨"vless", "a", ()⟩

def chained : Outbound Unit := { tag := some "out", detour := some "out-0", rest := () }

def elsewhere : Outbound Unit := { tag := some "out-b", rest := () }

def ruleOf (user outbound : String) : Rule Unit :=
  { authUser := .one user, outbound := some outbound, rest := () }

def shared : Config Unit Unit :=
  { sample "out" [direct, elsewhere, chained, member] with
    rules := [ruleOf "b" "out-b", ruleOf "a" "out"] }

theorem detour_preserved : ∃ projected, projection some shared "vless" = .ok projected ∧
    (verdict (fun _ _ => true) projected connection = verdict (fun _ _ => true) shared connection ∧
      ∀ outbound, Reached shared (verdict (fun _ _ => true) shared connection) outbound →
        outbound ∈ projected.outbounds) ∧
    member ∈ projected.outbounds ∧ projected.rules = [ruleOf "a" "out"] ∧
    elsewhere ∉ projected.outbounds := by
  have hprojection : projection some shared "vless" = .ok _ := rfl
  have hexit : Named shared ⟨some "vless", "vless", some 20168, false, false,
    [⟨some "a", none, some "1"⟩]⟩ (some "out") :=
    .inr ⟨ruleOf "a" "out", by decide,
      ⟨.inl rfl, .inr ⟨"a", by decide, _, List.mem_cons_self, rfl⟩⟩, rfl, by decide, by decide⟩
  have hiff := projection_preserves_iff (fun _ _ => true) hprojection rfl connection rfl
    ⟨_, List.mem_cons_self, rfl⟩
  refine ⟨_, hprojection, hiff.mpr
    ⟨?_, fun _ hfirst => by cases hfirst⟩, by decide, by decide, by decide⟩
  rintro outbound next hreached ⟨-, tag, hnext, hleads⟩
  rw [hnext]
  have hmem : outbound = direct ∨ outbound = elsewhere ∨ outbound = chained ∨
      outbound = member := by
    simpa [shared, sample] using hreached.mem
  obtain rfl | rfl | rfl | rfl := hmem
  · simp [direct] at hleads
  · simp [elsewhere] at hleads
  · obtain rfl : "out-0" = tag := by simpa [chained] using hleads
    exact .inr ⟨some "out", chained, hexit, rfl, rfl, by decide, by decide⟩
  · simp [member] at hleads

/-- The exit of a user with several proxies: the group is kept and its member is not. -/
theorem group_member_dropped : ∃ projected,
    projection some (sample "out" [direct, member, group]) "vless" = .ok projected ∧
      Reached (sample "out" [direct, member, group])
        (verdict (fun _ _ => true) (sample "out" [direct, member, group]) connection) member ∧
      member ∉ projected.outbounds := by
  refine ⟨_, rfl, ⟨group, ⟨?_, rfl, rfl⟩, .single ⟨?_, "out-0", rfl, .inr List.mem_cons_self⟩⟩,
    ?_⟩ <;> decide

end NodeManager.VlessProjection
