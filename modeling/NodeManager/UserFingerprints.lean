import NodeManager.Dictionary
import NodeManager.VlessProjection

namespace NodeManager.UserFingerprints

open Dictionary Outcomes VlessProjection

variable {κ ω δ : Type} {config : Config κ ω} {rule : Rule κ} {outbound : Outbound ω}

structure Facts (κ ω : Type) where
  auth : List (Option String × User)
  rules : List (Rule κ)
  outbounds : List (Outbound ω)
  deriving DecidableEq

def identity (user : User) : Option String := (truthy user.name).or (truthy user.username)

def managedUsers (config : Config κ ω) (managedTags : List String) : List (Option String × User) :=
  (config.inbounds.filter (fun inbound => inbound.tag.any (· ∈ managedTags))).flatMap
    (fun inbound => inbound.users.map (inbound.tag, ·))

def credentials (config : Config κ ω) (managedTags : List String) (name : String) :
    List (Option String × User) :=
  (managedUsers config managedTags).filter (fun entry => identity entry.2 = some name)

def collectedRules (config : Config κ ω) (name : String) : List (Rule κ) :=
  config.rules.flatMap (fun rule => List.replicate (rule.authUser.list.count name) rule)

def facts (config : Config κ ω) (managedTags : List String) (name : String) : Facts κ ω where
  auth := credentials config managedTags name
  rules := collectedRules config name
  outbounds := (collectedRules config name).filterMap (fun rule => config.byTag rule.outbound)

def userFingerprints (digest : Facts κ ω → δ) (config : Config κ ω) (managedTags : List String) :
    Except String (Dict String δ) := do
  require (∀ entry ∈ managedUsers config managedTags, (identity entry.2).isSome)
    "managed_user_missing_identity"
  let names := ((managedUsers config managedTags).filterMap (fun entry => identity entry.2)).dedup
  pure ⟨names.map (fun name => (name, digest (facts config managedTags name))),
    by simpa [Function.comp_def] using List.nodup_dedup _⟩

def changedNames [DecidableEq δ] (old new : Dict String δ) : List String :=
  (old.entries.filter (fun entry => new.get? entry.1 ≠ some entry.2)).map Prod.fst

def rulesNaming (config : Config κ ω) (name : String) : List (Rule κ) :=
  config.rules.filter (fun rule => name ∈ rule.authUser.list)

def Refers (config : Config κ ω) (tag next : Option String) : Prop :=
  ∃ outbound, config.byTag tag = some outbound ∧ next.isSome ∧
    (outbound.detour = next ∨ next ∈ outbound.outbounds.map some)

structure Unchanged (old new : Config κ ω) (managedTags : List String) (name : String) : Prop where
  credentials : credentials old managedTags name = credentials new managedTags name
  rules : rulesNaming old name = rulesNaming new name
  exits : ∀ rule ∈ rulesNaming old name, ∀ tag,
    Relation.ReflTransGen (Refers old) rule.outbound tag ∨
    Relation.ReflTransGen (Refers new) rule.outbound tag → old.byTag tag = new.byTag tag

/-- The outbounds that those of the user's rules lead to in the old configuration are as they
were. -/
def SameBehind (old new : Config κ ω) (name : String) : Prop :=
  ∀ rule ∈ rulesNaming old name, ∀ tag, Relation.TransGen (Refers old) rule.outbound tag →
    new.byTag tag = old.byTag tag

theorem flatMap_replicate_inj {α : Type} {times : α → Nat} {l l' : List α}
    (hl : ∀ a ∈ l, times a ≠ 0) (hl' : ∀ a ∈ l', times a ≠ 0)
    (h : l.flatMap (fun a => List.replicate (times a) a) =
      l'.flatMap (fun a => List.replicate (times a) a)) : l = l' := by
  induction l generalizing l' with
  | nil =>
    cases l' with
    | nil => rfl
    | cons b l' => simp [hl' b List.mem_cons_self] at h
  | cons a l ih =>
    cases l' with
    | nil => simp [hl a List.mem_cons_self] at h
    | cons b l' =>
      rw [List.forall_mem_cons] at hl hl'
      have hhead := congrArg List.head? h
      simp only [List.flatMap_cons, List.head?_append, List.head?_replicate, hl.1, hl'.1, if_false,
        Option.some_or, Option.some.injEq] at hhead
      subst hhead
      rw [ih hl.2 hl'.2 (List.append_cancel_left h)]

theorem count_ne_zero {name : String} (h : rule ∈ rulesNaming config name) :
    rule.authUser.list.count name ≠ 0 :=
  Nat.ne_of_gt (List.count_pos_iff.mpr (of_decide_eq_true (List.mem_filter.mp h).2))

theorem collectedRules_eq (config : Config κ ω) (name : String) : collectedRules config name =
    (rulesNaming config name).flatMap
    (fun rule => List.replicate (rule.authUser.list.count name) rule) := by
  rw [collectedRules, rulesNaming]
  induction config.rules with
  | nil => rfl
  | cons rule rules ih =>
    by_cases hname : name ∈ rule.authUser.list
    · simp [hname, ih]
    · simp [hname, List.count_eq_zero_of_not_mem hname, ih]

theorem mem_collectedRules {name : String} (h : rule ∈ rulesNaming config name) :
    rule ∈ collectedRules config name := by
  rw [collectedRules_eq]
  exact List.mem_flatMap.mpr ⟨rule, h, List.mem_replicate.mpr ⟨count_ne_zero h, rfl⟩⟩

theorem byTag_tag {tag : Option String} (h : config.byTag tag = some outbound) :
    outbound.tag = tag := by
  simpa using List.find?_some h

theorem byTag_of_collected {old new : Config κ ω} {rules : List (Rule κ)}
    (h : rules.filterMap (fun rule => old.byTag rule.outbound) =
      rules.filterMap (fun rule => new.byTag rule.outbound))
    (hrule : rule ∈ rules) (hold : old.byTag rule.outbound = some outbound) :
    new.byTag rule.outbound = some outbound := by
  have hmem : outbound ∈ rules.filterMap (fun rule => old.byTag rule.outbound) :=
    List.mem_filterMap.mpr ⟨rule, hrule, hold⟩
  rw [h] at hmem
  obtain ⟨other, -, hother⟩ := List.mem_filterMap.mp hmem
  rwa [← byTag_tag hold, byTag_tag hother]

section

variable {old new : Config κ ω} {managedTags : List String} {name : String}

/-- What a tag reaches in the new configuration it has reached in the old one, if nothing on the way
has changed. -/
theorem reached_back {start tag : Option String}
    (hsame : ∀ tag, Relation.ReflTransGen (Refers old) start tag → old.byTag tag = new.byTag tag)
    (h : Relation.ReflTransGen (Refers new) start tag) :
    Relation.ReflTransGen (Refers old) start tag := by
  induction h with
  | refl => exact .refl
  | tail _ hnext ih =>
    obtain ⟨outbound, hget, hrefers⟩ := hnext
    exact ih.tail ⟨outbound, (hsame _ ih).trans hget, hrefers⟩

theorem unchanged_iff_of_facts (h : facts old managedTags name = facts new managedTags name) :
    Unchanged old new managedTags name ↔ SameBehind old new name := by
  have hcollected := congrArg Facts.rules h
  have hrules : rulesNaming old name = rulesNaming new name := by
    change collectedRules old name = collectedRules new name at hcollected
    rw [collectedRules_eq, collectedRules_eq] at hcollected
    exact flatMap_replicate_inj (fun _ => count_ne_zero) (fun _ => count_ne_zero) hcollected
  have hdirect : ∀ rule ∈ rulesNaming old name,
      old.byTag rule.outbound = new.byTag rule.outbound := by
    intro rule hrule
    have houtbounds := congrArg Facts.outbounds h
    change (collectedRules old name).filterMap _ = (collectedRules new name).filterMap _
      at houtbounds
    rw [← show collectedRules old name = collectedRules new name from hcollected] at houtbounds
    have hmem := mem_collectedRules hrule
    exact Option.ext (fun outbound =>
      ⟨byTag_of_collected houtbounds hmem, byTag_of_collected houtbounds.symm hmem⟩)
  constructor
  · intro hunchanged rule hrule tag htag
    exact (hunchanged.exits rule hrule tag (.inl htag.to_reflTransGen)).symm
  intro hbehind
  refine ⟨congrArg Facts.auth h, hrules, fun rule hrule tag htag => ?_⟩
  have hsame : ∀ tag, Relation.ReflTransGen (Refers old) rule.outbound tag →
      old.byTag tag = new.byTag tag := by
    intro tag hreached
    obtain rfl | hreached := Relation.reflTransGen_iff_eq_or_transGen.mp hreached
    · exact hdirect rule hrule
    · exact (hbehind rule hrule tag hreached).symm
  exact hsame tag (htag.elim id (reached_back hsame))

theorem get?_userFingerprints {digest : Facts κ ω → δ} {config : Config κ ω}
    {result : Dict String δ} (h : userFingerprints digest config managedTags = .ok result)
    {value : δ} (hget : result.get? name = some value) :
    value = digest (facts config managedTags name) := by
  obtain ⟨_, -, h⟩ := bind_eq_ok h
  cases h
  obtain ⟨_, -, hentry⟩ := List.mem_map.mp (Dict.mem_entries_iff.mpr hget)
  cases hentry
  rfl

end

def pair (exit : Outbound Unit) : Config Unit Unit :=
  { sample "out" [direct, member, chained, exit] with
    inbounds := [{ tag := some "vless", type := "vless", listenPort := some 20168
                   users := [⟨some "a", none, some "1"⟩, ⟨some "b", none, some "2"⟩] }]
    rules := [ruleOf "a" "out", ruleOf "b" "out-b"] }

def moved : Outbound Unit := { elsewhere with detour := some "direct" }

def published (exit : Outbound Unit) : Config Unit Unit :=
  { pair exit with externalController := "127.0.0.1:9090" }

theorem behind_chained {tag : Option String}
    (h : Relation.TransGen (Refers (published elsewhere)) (some "out") tag) :
    tag = some "out-0" := by
  have hfirst : ∀ {next}, Refers (published elsewhere) (some "out") next → next = some "out-0" := by
    rintro next ⟨outbound, hget, -, hnext⟩
    obtain rfl : chained = outbound := Option.some.inj hget
    simpa [chained, eq_comm] using hnext
  induction h with
  | single hnext => exact hfirst hnext
  | tail _ hnext ih =>
    subst ih
    obtain ⟨outbound, hget, hsome, hnext⟩ := hnext
    obtain rfl : member = outbound := Option.some.inj hget
    obtain rfl : none = _ := by simpa [member] using hnext
    cases hsome

end NodeManager.UserFingerprints
