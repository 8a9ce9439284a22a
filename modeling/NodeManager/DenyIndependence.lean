import NodeManager.BlockingOperations

namespace NodeManager.DenyIndependence

open Text Dictionary Singbox Identities Occurrences DenyRules DenyLedger DenyTransfer Operations
  BlockingOperations Runs

def beforeRoute (userId : String) (rule : Rule) : Bool := rule.outbound ≠ some (outboundTag userId)

/-- Before the user is routed, some plain reject rule lists every name of the user that is
installed. -/
def Denied (s : Node) (userId : String) : Prop :=
  ∃ rule ∈ s.rules.takeWhile (beforeRoute userId),
    rule = .reject rule.names ∧ ∀ n ∈ installedNames s userId, n ∈ rule.names

instance (s : Node) (userId : String) : Decidable (Denied s userId) := by
  unfold Denied; infer_instance

def Unblocked (m : Metadata) : Prop :=
  m.accessBlocked = false ∧ m.accessBlockedAuthUsers = none ∧ m.expirationBlocked = false ∧
    m.expirationAuthUsers = none ∧ m.enforcementTrafficBlocked = false ∧
    m.enforcementAuthUsers = none ∧
    m.enforcementBlockedSourceCidrs = none

instance (m : Metadata) : Decidable (Unblocked m) := by unfold Unblocked; infer_instance

/-- A node before any block: no row records one, and registered users have auth names of their
own. -/
structure Start (s : Node) : Prop where
  ids : "" ∉ s.users.keys
  disjoint : ∀ u ∈ s.users.keys, ∀ v ∈ s.users.keys, u ≠ v →
    ∀ n ∈ userAuthNames s.users u, n ∉ userAuthNames s.users v
  unblocked : ∀ e ∈ s.users.entries, Unblocked e.2

/-- Two blocks of the row rely on one shape of rule, which lifting the traffic block would
remove. -/
def sharesTrafficRule (m : Metadata) : Prop :=
  m.accessBlocked = true ∧ m.enforcementTrafficBlocked = true ∧
    m.accessBlockedAuthUsers = m.enforcementAuthUsers

def liftsSharedRule (s : Node) : Operation → Prop
  | .syncUserEnforcements enforcements _ => ∃ e ∈ enforcements.entries,
      e.2.trafficBlocked = false ∧ sharesTrafficRule (registryUser s.users e.1)
  | _ => False

structure Recorded (names enforced : List String) (m : Metadata) : Prop where
  access : m.accessBlockedAuthUsers = if m.accessBlocked then some names else none
  expiration : m.expirationAuthUsers = if m.expirationBlocked then some names else none
  traffic : m.enforcementAuthUsers = if m.enforcementTrafficBlocked then some enforced else none
  sources : m.enforcementBlockedSourceCidrs = none

structure RowCovered (s : Node) (u : String) (m : Metadata) : Prop where
  recorded : Recorded (blockNames s u) (enforcementNames s u) m
  covered : ∀ names, owners m names ≤ copies (beforeRoute u) s.rules names

structure Independent (s : Node) : Prop where
  ids : "" ∉ s.users.keys
  disjoint : ∀ u ∈ s.users.keys, ∀ v ∈ s.users.keys, u ≠ v →
    ∀ n ∈ userAuthNames s.users u, n ∉ userAuthNames s.users v
  rows : ∀ u m, s.users.get? u = some m → RowCovered s u m

variable {s : Node} {u : String} {names : List String}

theorem denied_of_mem (hmem : Rule.reject names ∈ s.rules.takeWhile (beforeRoute u))
    (hn : ∀ n ∈ installedNames s u, n ∈ names) : Denied s u :=
  ⟨.reject names, hmem, rfl, hn⟩

theorem passes_beforeRoute (u : String) : Passes (beforeRoute u) := by
  intro names
  simp [beforeRoute]

theorem rejectSources_beforeRoute (u : String) (names cidrs : List String) :
    beforeRoute u (.rejectSources names cidrs) = true := by
  simp [beforeRoute]

namespace Recorded

variable {enforced : List String} {m m' : Metadata}

theorem redated (hm : Recorded names enforced m) (hr : Redated m m') :
    Recorded names enforced m' := by
  rw [hr]
  exact { hm with }

section

variable (hm : Recorded names enforced m)
include hm

theorem accessList_eq (hn : Tidy names) :
    accessList m = if m.accessBlocked then some names else none := by
  rw [accessList, hm.access]
  cases m.accessBlocked with
  | true => simp only [if_true, nonEmpty_some hn.1, Option.map_some, hn.2]
  | false => rfl

theorem expirationTarget_eq (hn : Tidy names) :
    expirationTarget m = if m.expirationBlocked then some names else none := by
  rw [expirationTarget, hm.expiration]
  cases m.expirationBlocked with
  | true => simp only [if_true, nonEmpty_some hn.1, Option.map_some, hn.2]
  | false => rfl

theorem expirationList_eq (hn : Tidy names) :
    expirationList m = if m.expirationBlocked then some names else none := by
  rw [expirationList, hm.expirationTarget_eq hn]
  cases m.expirationBlocked <;> rfl

theorem trafficList_eq (he : Tidy enforced) :
    trafficList m = if m.enforcementTrafficBlocked then some enforced else none := by
  rw [trafficList, hm.traffic]
  cases m.enforcementTrafficBlocked with
  | true => simp only [if_true, nonEmpty_some he.1]
  | false => rfl

theorem owners_eq_zero (hn : Tidy names) (he : Tidy enforced) {names' : List String}
    (hne : names' ≠ names) (hne' : names' ≠ enforced) : owners m names' = 0 := by
  rw [owners, hm.accessList_eq hn, hm.expirationList_eq hn, hm.trafficList_eq he]
  cases m.accessBlocked <;> cases m.expirationBlocked <;> cases m.enforcementTrafficBlocked <;>
    simp [holds, Ne.symm hne, Ne.symm hne']

end

end Recorded

theorem socksUsername_store {s : Node} {u : String} {rules : List Rule} {m : Metadata}
    (hname : m.socksUsername = (registryUser s.users u).socksUsername) (v : String) :
    (registryUser (store s u rules m).users v).socksUsername =
    (registryUser s.users v).socksUsername := by
  unfold registryUser at hname ⊢
  rw [get?_store]
  by_cases hv : v = u
  · subst hv
    rw [if_pos rfl]
    cases hm : s.users.get? v with
    | none => rfl
    | some m' =>
      rw [hm] at hname
      exact hname
  · rw [if_neg hv]

section

variable (hs : Independent s)
include hs

theorem Independent.tidy (hu : u ∈ s.users.keys) : Tidy (blockNames s u) :=
  tidy_blockNames (fun he => hs.ids (he ▸ hu))

theorem Independent.owners_other {v : String} {m : Metadata} (hm : s.users.get? v = some m)
    (hv : v ≠ u) (hne : owners m names ≠ 0) : owners (registryUser s.users u) names = 0 := by
  cases hu : s.users.get? u with
  | none => rw [registryUser, hu]; exact owners_empty names
  | some mu =>
    have hvk : v ∈ s.users.keys := Dict.mem_keys_iff.mpr ⟨m, hm⟩
    have huk : u ∈ s.users.keys := Dict.mem_keys_iff.mpr ⟨mu, hu⟩
    have hdis := hs.disjoint v hvk u huk hv (authName v) (authName_mem s.users v)
    have hmem : authName v ∈ names := by
      by_contra hn
      apply hne
      apply (hs.rows v m hm).recorded.owners_eq_zero (hs.tidy hvk) (tidy_enforcementNames s v)
      · intro he
        rw [he] at hn
        exact hn (mem_sortedSet.mpr (authName_mem s.users v))
      · intro he
        rw [he] at hn
        exact hn (mem_sortedSet.mpr (authName_mem_mappedNames _ _ v))
    rw [registryUser_of_get? hu]
    apply (hs.rows u mu hu).recorded.owners_eq_zero (hs.tidy huk) (tidy_enforcementNames s u)
    · intro he
      rw [he] at hmem
      exact hdis (mem_sortedSet.mp hmem)
    · intro he
      rw [he] at hmem
      exact hdis (mappedNames_subset (mem_sortedSet.mp hmem))

theorem Independent.store {rules : List Rule} {m : Metadata}
    (hname : m.socksUsername = (registryUser s.users u).socksUsername)
    (hcov : Covers s.rules (registryUser s.users u) rules m)
    (hrec : u ∈ s.users.keys → Recorded (blockNames s u) (enforcementNames s u) m) :
    Independent (store s u rules m) := by
  have hkeys : (DenyRules.store s u rules m).users.keys = s.users.keys := Dict.keys_modify _ _ _
  have hsocks := @socksUsername_store s u rules m hname
  have hnames := fun v => userAuthNames_congr (hsocks v)
  have hblock : ∀ v, blockNames (DenyRules.store s u rules m) v = blockNames s v := by
    intro v
    rw [blockNames, hnames, blockNames]
  have henf : ∀ v, enforcementNames (DenyRules.store s u rules m) v = enforcementNames s v := by
    intro v
    rw [enforcementNames, mappedNames, publicSocksUsername_congr (hsocks v), enforcementNames,
      mappedNames]
    rfl
  constructor
  · rw [hkeys]
    exact hs.ids
  · intro v hv w hw hvw n
    rw [hkeys] at hv hw
    rw [hnames, hnames]
    exact hs.disjoint v hv w hw hvw n
  intro v m' hm'
  rw [get?_store] at hm'
  by_cases hv : v = u
  · subst hv
    rw [if_pos rfl, Option.map_eq_some_iff] at hm'
    obtain ⟨m₀, hm₀, rfl⟩ := hm'
    constructor
    · rw [hblock, henf]
      exact hrec (Dict.mem_keys_iff.mpr ⟨m₀, hm₀⟩)
    have hcovered := (hs.rows v m₀ hm₀).covered
    rw [registryUser_of_get? hm₀] at hcov
    exact hcov.own _ (passes_beforeRoute v) (rejectSources_beforeRoute v) hcovered
  · rw [if_neg hv] at hm'
    have hrow := hs.rows v m' hm'
    constructor
    · rw [hblock, henf]
      exact hrow.recorded
    intro names
    by_cases hz : owners m' names = 0
    · rw [hz]
      exact Nat.zero_le _
    · exact (hrow.covered names).trans
        (hcov.others _ (passes_beforeRoute v) (rejectSources_beforeRoute v) names
          (hs.owners_other hm' hv hz))

end

namespace Independent

variable {m : Metadata}

section

variable (hs : Independent s)
include hs

theorem recorded (hu : u ∈ s.users.keys) :
    Recorded (blockNames s u) (enforcementNames s u) (registryUser s.users u) := by
  obtain ⟨m, hm⟩ := Dict.mem_keys_iff.mp hu
  rw [registryUser_of_get? hm]
  exact (hs.rows u m hm).recorded

theorem target (u : String) : expirationTarget (registryUser s.users u) =
    expirationList (registryUser s.users u) := by
  by_cases hu : u ∈ s.users.keys
  · have hr := hs.recorded hu
    rw [hr.expirationTarget_eq (hs.tidy hu), hr.expirationList_eq (hs.tidy hu)]
  · rw [registryUser, Dict.get?_eq_none.mpr hu]
    rfl

theorem cons (names : List String) : Independent { s with rules := .reject names :: s.rules } := by
  refine ⟨hs.ids, hs.disjoint, ?_⟩
  intro v m hm
  have hrow := hs.rows v m hm
  refine ⟨hrow.recorded, ?_⟩
  intro names'
  rw [copies_cons (passes_beforeRoute v)]
  exact (hrow.covered names').trans (Nat.le_add_right _ _)

theorem allowAccess : Independent (allowAccess u s) := by
  apply hs.store
  · rfl
  · exact (transfer_removeAccessRule _ s.rules).covers.congr rfl rfl
  intro hu
  have hr := hs.recorded hu
  exact ⟨rfl, hr.expiration, hr.traffic, hr.sources⟩

theorem denyAccess : Independent (denyAccess u s) := by
  by_cases hu : u ∈ s.users.keys
  · have hr := hs.recorded hu
    unfold DenyRules.denyAccess
    dsimp only
    split
    · apply hs.store
      · rfl
      · exact (transfer_refl s.rules _).covers.congr rfl rfl
      · exact fun _ => { hr with }
    · apply hs.store
      · rfl
      · exact (transfer_denyAccess _ s.rules (hs.tidy hu)).covers.congr rfl rfl
      · exact fun _ => ⟨rfl, hr.expiration, hr.traffic, hr.sources⟩
  · rw [denyAccess_of_not_mem hu]
    exact hs.cons _

theorem addExpirationRule : Independent (addExpirationRule u s) := by
  by_cases hu : u ∈ s.users.keys
  · have hr := hs.recorded hu
    unfold DenyRules.addExpirationRule
    dsimp only
    split
    · exact hs
    apply hs.store
    · rfl
    · exact (transfer_addExpirationRule _ s.rules (hs.target u) (hs.tidy hu)).covers.congr rfl rfl
    · exact fun _ => ⟨hr.access, rfl, hr.traffic, hr.sources⟩
  · rw [addExpirationRule_of_not_mem hu]
    exact hs.cons _

theorem redate (hm : Redated (registryUser s.users u) m) :
    Independent (DenyRules.store s u s.rules m) := by
  apply hs.store hm.socksUsername_eq
  · exact (transfer_refl s.rules _).covers.congr rfl hm.owners_eq
  · intro hu
    exact (hs.recorded hu).redated hm

theorem renew (hm : Redated (registryUser s.users u) m) :
    Independent (DenyRules.store s u (removeExpirationRule s.rules m).1
      (removeExpirationRule s.rules m).2) := by
  apply hs.store
  · exact hm.socksUsername_eq
  · have hl : expirationTarget m = expirationList m := by
      rw [hm]
      exact hs.target u
    exact (transfer_removeExpirationRule m s.rules hl).covers.congr hm.owners_eq.symm rfl
  · intro hu
    have hr := (hs.recorded hu).redated hm
    exact ⟨hr.access, rfl, hr.traffic, hr.sources⟩

theorem syncUserEnforcement {h : Host} {desired : Enforcement} {m : Metadata}
    (hm : s.users.get? u = some m) (hmay : desired.trafficBlocked = false → ¬ sharesTrafficRule m) :
    Independent (syncUserEnforcement h false s u desired) := by
  have hrow := (hs.rows u m hm).recorded
  have hu : u ∈ s.users.keys := Dict.mem_keys_iff.mpr ⟨m, hm⟩
  have htidy := tidy_enforcementNames s u
  have hcidr : sourceCidrs h false desired = [] := rfl
  have hnil : normalized [] = [] := rfl
  obtain he | ⟨m', hm', hwant, hcur, he⟩ := syncUserEnforcement_cases h false s u desired
  · rw [he]
    exact hs
  rw [he, hcidr]
  rw [hcidr] at hwant hcur
  cases hm.symm.trans hm'
  have hlist := hrow.traffic
  cases hflag : m.enforcementTrafficBlocked with
  | true =>
    rw [hflag, if_pos rfl] at hlist
    cases htraffic : desired.trafficBlocked with
    | true =>
      simp [enforcementCurrent, htraffic, hflag, hlist, htidy.2, hrow.sources, hnil] at hcur
    | false =>
      have hshare : ∀ names, trafficList m = some names → accessList m ≠ some names := by
        intro names ht ha
        rw [hrow.trafficList_eq htidy, hflag, if_pos rfl] at ht
        rw [hrow.accessList_eq (hs.tidy hu)] at ha
        cases hacc : m.accessBlocked with
        | true =>
          rw [hacc, if_pos rfl] at ha
          have hal := hrow.access
          rw [hacc, if_pos rfl] at hal
          exact hmay htraffic ⟨hacc, hflag, hal.trans (ha.trans (ht.symm.trans hlist.symm))⟩
        | false =>
          rw [hacc] at ha
          cases ha
      apply hs.store
      · rw [registryUser_of_get? hm]
      · rw [registryUser_of_get? hm]
        exact covers_liftTraffic m s.rules hshare
      · intro _
        exact ⟨hrow.access, hrow.expiration, rfl, rfl⟩
  | false =>
    rw [hflag, if_neg (by simp)] at hlist
    cases htraffic : desired.trafficBlocked with
    | true =>
      have hmanaged : managedEnforcementRules m = [] := by simp [managedEnforcementRules, hlist]
      have hpos : managedIndex s.rules m = 0 := by
        have hidx : s.rules.findIdx (fun rule => decide (rule ∈ managedEnforcementRules m)) =
            s.rules.length := by
          rw [hmanaged, List.findIdx_eq_length]
          simp
        rw [managedIndex, hidx, if_neg (lt_irrefl _)]
      have hrules : removeManagedEnforcementRules s.rules m = s.rules := by
        rw [removeManagedEnforcementRules, hmanaged, removeAllBut_nil]
      unfold enforce
      simp only [hpos, hrules, if_true, insertAt_zero]
      apply hs.store
      · rw [registryUser_of_get? hm]
      · rw [registryUser_of_get? hm]
        exact (transfer_addTraffic m s.rules hflag htidy.1 none).covers
      · intro _
        exact ⟨hrow.access, hrow.expiration, rfl, rfl⟩
    | false => simp [hasEnforcement, htraffic, hflag, hlist, hrow.sources, hnil] at hwant

theorem step {h : Host} {op : Operation} (hb : isBlocking op = true)
    (hl : ¬ liftsSharedRule s op) : Independent (mutateConfig h op s) := by
  have hi : BlockingInvariant h (fun _ => True) (fun m => ¬ sharesTrafficRule m) Independent :=
    { allow := fun _ _ _ hs => hs.allowAccess
      deny := fun _ _ _ hs => hs.denyAccess
      expire := fun _ _ _ hs => hs.addExpirationRule
      redate := fun _ _ _ _ hm hs => hs.redate hm
      renew := fun _ _ _ _ hm hs => hs.renew hm
      enforce := fun _ _ _ _ _ hm hmay hs => hs.syncUserEnforcement hm hmay }
  apply hi.step hb (fun _ _ => trivial) _ hs
  rintro enforcements persist rfl e he ht hshare
  exact hl ⟨e, he, ht, hshare⟩

theorem denied (hm : s.users.get? u = some m) (hb : blocked m = true) : Denied s u := by
  have hrow := hs.rows u m hm
  have hheld : ∀ names, owners m names ≠ 0 →
      Rule.reject names ∈ s.rules.takeWhile (beforeRoute u) := by
    intro names hne
    have := hrow.covered names
    exact List.count_pos_iff.mp (by unfold copies at this; omega)
  have hfull : owners m (blockNames s u) ≠ 0 → Denied s u := by
    intro hne
    apply denied_of_mem (hheld _ hne)
    intro n hn
    exact mem_sortedSet.mpr (List.mem_filter.mp hn).1
  simp only [blocked, Bool.or_eq_true] at hb
  have htidy := hs.tidy (Dict.mem_keys_iff.mpr ⟨m, hm⟩)
  rcases hb with (ha | he) | ht
  · apply hfull
    rw [owners, hrow.recorded.accessList_eq htidy, ha, if_pos rfl, holds_some, if_pos rfl]
    omega
  · apply hfull
    rw [owners, hrow.recorded.expirationList_eq htidy, he, if_pos rfl, holds_some, if_pos rfl]
    omega
  have hne : owners m (enforcementNames s u) ≠ 0 := by
    rw [owners, hrow.recorded.trafficList_eq (tidy_enforcementNames s u), ht, if_pos rfl,
      holds_some, if_pos rfl]
    omega
  apply denied_of_mem (hheld _ hne)
  intro n hn
  exact mem_sortedSet.mpr (installed_mem_mappedNames hn)

end

end Independent

theorem Start.independent (hs : Start s) : Independent s := by
  refine ⟨hs.ids, hs.disjoint, ?_⟩
  intro u m hm
  obtain ⟨ha, hal, he, hel, ht, htl, hc⟩ := hs.unblocked (u, m) (Dict.mem_entries_iff.mpr hm)
  dsimp only at ha hal he hel ht htl hc
  constructor
  · exact ⟨by simp [ha, hal], by simp [he, hel], by simp [ht, htl], hc⟩
  · intro names
    simp [owners, accessList, expirationList, trafficList, ha, he, ht]

/-- Deny blocks are independent along every run of blocking operations that lifts no traffic block
from a row whose access block has the same shape of rule. -/
theorem blocked_users_denied (h : Host) (ops : List Operation) (s : Node) (hs : Start s)
    (hp : Permitted (mutateConfig h)
      (fun s op => isBlocking op = true ∧ ¬ liftsSharedRule s op) ops s) :
    ∀ u m, (run (mutateConfig h) ops s).users.get? u = some m → blocked m = true →
      Denied (run (mutateConfig h) ops s) u := by
  have hinv : Independent (run (mutateConfig h) ops s) := by
    apply run_invariant _ hs.independent hp
    intro s op hs hop
    exact hs.step hop.1 hop.2
  intro u m hm hb
  exact hinv.denied hm hb

def oneUser : Node where
  inbounds := [{ tag := "vless-reality", users :=
    [{ login := .name "node-manager:alice", uuid := some "a" }] }]
  outbounds := [{ type := .direct, tag := "node-manager-out:alice" }]
  rules := [.route ["alice", "node-manager:alice"] "node-manager-out:alice"]
  users := ⟨[("alice", {})], by decide⟩

theorem start_oneUser : Start oneUser := ⟨by decide, by decide, by decide⟩

def setTraffic (trafficBlocked : Bool) : Operation :=
  .syncUserEnforcements ⟨[("alice", { trafficBlocked := trafficBlocked })],
    List.nodup_singleton "alice"⟩ false

def liftedBlocks : List Operation :=
  [.setUserAccess "alice" false, setTraffic true, .setUserAccess "alice" true, setTraffic false,
    .setUserAccess "alice" false]

theorem blocked_users_denied_suspended : Start oneUser ∧
    ∀ u m, (run (mutateConfig default) liftedBlocks oneUser).users.get? u = some m →
    blocked m = true →
      Denied (run (mutateConfig default) liftedBlocks oneUser) u := by
  refine ⟨start_oneUser, blocked_users_denied default liftedBlocks oneUser start_oneUser
    ⟨⟨rfl, fun h => h⟩, ⟨rfl, ?_⟩, ⟨rfl, fun h => h⟩, ⟨rfl, ?_⟩, ⟨rfl, fun h => h⟩, trivial⟩⟩
  · rintro ⟨e, he, ht, _⟩
    obtain rfl := List.mem_singleton.mp he
    cases ht
  · rintro ⟨e, he, _, haccess, _⟩
    obtain rfl := List.mem_singleton.mp he
    revert haccess
    decide

/-- A suspended user runs out of traffic and gets it back: the access block stays recorded, but its
rule is gone. -/
theorem suspended_user_routed_again :
    Start oneUser ∧ (∀ op ∈ [.setUserAccess "alice" false, setTraffic true, setTraffic false],
      isBlocking op = true) ∧
      ((run (mutateConfig default) [.setUserAccess "alice" false, setTraffic true, setTraffic false]
        oneUser).users.get? "alice").any (·.accessBlocked) = true ∧
      ¬ Denied (run (mutateConfig default)
        [.setUserAccess "alice" false, setTraffic true, setTraffic false] oneUser) "alice" :=
  ⟨start_oneUser, by decide, by decide, by decide⟩

end NodeManager.DenyIndependence
