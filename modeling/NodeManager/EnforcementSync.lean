import NodeManager.BlockingOperations

namespace NodeManager.EnforcementSync

open Text Dictionary Singbox Identities DenyRules DenyLedger BlockingOperations

def changed (h : Host) (persist : Bool) : List (String × Enforcement) → Node → Bool
  | [], _ => false
  | item :: rest, s =>
    decide (syncUserEnforcement h persist s item.1 item.2 ≠ s) ||
      changed h persist rest (syncUserEnforcement h persist s item.1 item.2)

def desiredItem (persist : Bool) (item : String × Enforcement) : String × Bool × List String :=
  (item.1, item.2.trafficBlocked, if persist then sorted item.2.blockedSourceIps else [])

/-- What the cached answer is kept under, beside the versions of the files. -/
def desiredState (persist : Bool) (enforcements : Dict String Enforcement) :
    List (String × Bool × List String) :=
  (enforcements.entries.map (desiredItem persist)).insertionSort (fun a b => a.1 ≤ b.1)

def Settled (h : Host) (persist : Bool) (s : Node) (u : String) (desired : Enforcement) : Prop :=
  ∀ m, s.users.get? u = some m → installedNames s u ≠ [] →
    (hasEnforcement m desired.trafficBlocked (sourceCidrs h persist desired) = false ∧
      normalized (m.enforcementAuthUsers.getD []) = []) ∨
    enforcementCurrent s u m desired.trafficBlocked (sourceCidrs h persist desired) = true

def Undivided (h : Host) (persist : Bool) (s : Node) (u : String) (desired : Enforcement) : Prop :=
  desired.trafficBlocked = true → sourceCidrs h persist desired = [] ∨ Settled h persist s u desired

variable {h : Host} {persist : Bool} {s s' : Node} {u : String} {desired : Enforcement}

theorem syncUserEnforcement_of_settled (hs : Settled h persist s u desired) :
    syncUserEnforcement h persist s u desired = s := by
  cases hm : s.users.get? u with
  | none => simp only [syncUserEnforcement, hm]
  | some m =>
    simp only [syncUserEnforcement, hm]
    split_ifs with hidle habsent hcurrent
    · rfl
    · rfl
    · rfl
    · have hinstalled : installedNames s u ≠ [] := by
        simpa [installedNames, List.filter_eq_nil_iff] using habsent
      exact absurd (hs m hm hinstalled) (not_or.mpr ⟨hidle, hcurrent⟩)

theorem enforcementNames_congr (hin : s'.inbounds = s.inbounds)
    (hsocks : (registryUser s'.users u).socksUsername = (registryUser s.users u).socksUsername) :
    enforcementNames s' u = enforcementNames s u := by
  rw [enforcementNames, mappedNames, hin, publicSocksUsername_congr hsocks]
  rfl

theorem Settled.congr (hs : Settled h persist s u desired) (hin : s'.inbounds = s.inbounds)
    (hrow : s'.users.get? u = s.users.get? u) : Settled h persist s' u desired := by
  have hsocks : (registryUser s'.users u).socksUsername =
      (registryUser s.users u).socksUsername := by
    rw [registryUser, hrow, registryUser]
  intro m hm hinstalled
  rw [installedNames_congr hin hsocks] at hinstalled
  rw [enforcementCurrent, enforcementNames_congr hin hsocks]
  exact hs m (hrow ▸ hm) hinstalled

theorem inbounds_syncUserEnforcement (h : Host) (persist : Bool) (s : Node) (u : String)
    (desired : Enforcement) :
    (syncUserEnforcement h persist s u desired).inbounds = s.inbounds := by
  obtain he | ⟨m, -, -, -, he⟩ := syncUserEnforcement_cases h persist s u desired
  · rw [he]
  · rw [he, enforce]
    split_ifs <;> rfl

theorem get?_enforce {m : Metadata} (hm : s.users.get? u = some m) (blocked : Bool)
    (cidrs : List String) :
    (enforce u m blocked cidrs s).users.get? u = some { m with
      enforcementAuthUsers := if blocked = true ∨
        cidrs ≠ [] then some (enforcementNames s u) else none
      enforcementTrafficBlocked := blocked
      enforcementBlockedSourceCidrs := if blocked = true ∨ cidrs = [] then none
        else some cidrs } := by
  cases blocked with
  | true => simp [enforce, get?_store, hm]
  | false => by_cases hcidrs : cidrs = [] <;> simp [enforce, get?_store, hm, hcidrs]

section

variable (hcidr : ∀ address, h.sourceIpCidr address ≠ some "")
include hcidr

theorem normalized_sourceCidrs (persist : Bool) (desired : Enforcement) :
    normalized (sourceCidrs h persist desired) = sourceCidrs h persist desired := by
  by_cases hnil : desired.blockedSourceIps.filterMap h.sourceIpCidr = []
  · simp [sourceCidrs, hnil, normalized, sortedSet, sorted]
  have hempty : "" ∉ desired.blockedSourceIps.filterMap h.sourceIpCidr := by
    intro hmem
    obtain ⟨address, -, haddress⟩ := List.mem_filterMap.mp hmem
    exact hcidr address haddress
  unfold sourceCidrs
  split
  · exact (tidy_sortedSet hnil hempty).2
  · rfl

theorem Undivided.settled (hu : Undivided h persist s u desired) :
    Settled h persist (syncUserEnforcement h persist s u desired) u desired := by
  by_cases hs : Settled h persist s u desired
  · rwa [syncUserEnforcement_of_settled hs]
  have hcidrs := fun hblocked => (hu hblocked).resolve_right hs
  unfold Settled at hs
  push Not at hs
  obtain ⟨m, hm, hinstalled, hidle, hcurrent⟩ := hs
  have hinstalled' : ¬(userAuthNames s.users u).all (· ∉ existingAuthNames s.inbounds) = true := by
    simpa [installedNames, List.filter_eq_nil_iff] using hinstalled
  have he : syncUserEnforcement h persist s u desired =
      enforce u m desired.trafficBlocked (sourceCidrs h persist desired) s := by
    simp only [syncUserEnforcement, hm]
    rw [if_neg (not_and.mpr hidle), if_neg hinstalled', if_neg hcurrent]
  have hrow := get?_enforce hm desired.trafficBlocked (sourceCidrs h persist desired)
  rw [← he] at hrow
  have hnames : enforcementNames (syncUserEnforcement h persist s u desired) u =
    enforcementNames s u :=
    enforcementNames_congr (inbounds_syncUserEnforcement h persist s u desired) (by
      rw [registryUser_of_get? hrow, registryUser_of_get? hm])
  intro m' hm' _
  rw [enforcementCurrent, hnames]
  cases hrow.symm.trans hm'
  have hempty : normalized [] = [] := rfl
  cases hblocked : desired.trafficBlocked with
  | true => exact .inr (by simp [hcidrs hblocked, hempty, (tidy_enforcementNames s u).2])
  | false =>
    by_cases hnil : sourceCidrs h persist desired = []
    · exact .inl (by simp [hnil, hasEnforcement, hempty])
    · exact .inr (by simp [hnil, normalized_sourceCidrs hcidr, (tidy_enforcementNames s u).2])

theorem settled_foldl {items : List (String × Enforcement)} (hnodup : (items.map Prod.fst).Nodup)
    (hitems : ∀ item ∈ items, Undivided h persist s item.1 item.2) :
    ∀ item ∈ items, Settled h persist
      (items.foldl (fun s item => syncUserEnforcement h persist s item.1 item.2) s) item.1
      item.2 := by
  induction items generalizing s with
  | nil => nofun
  | cons first rest ih =>
    obtain ⟨hnew, hrest⟩ := List.nodup_cons.mp hnodup
    have hne (item : String × Enforcement) (hitem : item ∈ rest) : item.1 ≠ first.1 :=
      fun heq => hnew (heq ▸ List.mem_map_of_mem hitem)
    have hsettled := (hitems first List.mem_cons_self).settled hcidr
    refine List.forall_mem_cons.mpr ⟨?_, ih hrest (fun item hitem hblocked => ?_)⟩
    · refine @Runs.foldl_invariant _ _ (Settled h persist · first.1 first.2) _ rest _ hsettled
        (fun t item hitem ht => ?_)
      exact ht.congr (inbounds_syncUserEnforcement ..)
        (syncUserEnforcement_get?_of_ne (hne item hitem).symm ..)
    · refine (hitems item (List.mem_cons_of_mem _ hitem) hblocked).imp_right (fun hs => ?_)
      exact hs.congr (inbounds_syncUserEnforcement ..)
        (syncUserEnforcement_get?_of_ne (hne item hitem) ..)

end

theorem changed_eq_false_iff {items : List (String × Enforcement)} :
    changed h persist items s = false ↔
    ∀ item ∈ items, syncUserEnforcement h persist s item.1 item.2 = s := by
  induction items with
  | nil => simp [changed]
  | cons item rest ih =>
    rw [changed, Bool.or_eq_false_iff, decide_eq_false_iff_not, not_not, List.forall_mem_cons]
    exact and_congr_right (fun hsame => by rw [hsame, ih])

theorem changed_of_desiredState {enforcements other : Dict String Enforcement}
    (hstate : desiredState persist other = desiredState persist enforcements)
    (hchanged : changed h persist enforcements.entries s = false) :
    changed h persist other.entries s = false := by
  rw [changed_eq_false_iff] at hchanged ⊢
  intro item hitem
  have hmem : desiredItem persist item ∈ desiredState persist other :=
    (List.mem_insertionSort _).mpr (List.mem_map_of_mem hitem)
  rw [hstate, desiredState, List.mem_insertionSort] at hmem
  obtain ⟨found, hfound, heq⟩ := List.mem_map.mp hmem
  simp only [desiredItem, Prod.mk.injEq] at heq
  have hcidrs : sourceCidrs h persist found.2 = sourceCidrs h persist item.2 := by
    cases persist with
    | false => rfl
    | true =>
      have hips (address : String) : address ∈ found.2.blockedSourceIps ↔
          address ∈ item.2.blockedSourceIps := by
        rw [← mem_sorted, show sorted _ = sorted _ from heq.2.2, mem_sorted]
      refine sortedSet_congr (fun cidr => ?_)
      simp only [List.mem_filterMap, hips]
  have hsame := hchanged found hfound
  rw [syncUserEnforcement, heq.1, heq.2.1, hcidrs] at hsame
  exact hsame

/-- One application reaches a fixed point: the flags are as wanted, a second application changes
nothing and says so, and the cache answers for the same state what an application would. -/
structure Fixed (h : Host) (persist : Bool) (enforcements : Dict String Enforcement)
    (s : Node) : Prop where
  flagged : ∀ u desired m, enforcements.get? u = some desired →
    (syncUserEnforcements h persist enforcements s).users.get? u = some m →
    installedNames (syncUserEnforcements h persist enforcements s) u ≠ [] →
    m.enforcementTrafficBlocked = desired.trafficBlocked
  unchanged : syncUserEnforcements h persist enforcements
    (syncUserEnforcements h persist enforcements s) =
    syncUserEnforcements h persist enforcements s
  answered : changed h persist enforcements.entries
    (syncUserEnforcements h persist enforcements s) = false
  cached : ∀ other t, desiredState persist other = desiredState persist enforcements →
    changed h persist enforcements.entries t = false → changed h persist other.entries t = false

theorem enforcements_fixed (h : Host) (persist : Bool)
    (enforcements : Dict String Enforcement) (s : Node)
    (hcidr : ∀ address, h.sourceIpCidr address ≠ some "")
    (hitems : ∀ item ∈ enforcements.entries, Undivided h persist s item.1 item.2) :
    Fixed h persist enforcements s := by
  have hsettled := settled_foldl hcidr enforcements.nodup hitems
  have hsame := fun item hitem => syncUserEnforcement_of_settled (hsettled item hitem)
  refine ⟨fun u desired m hget hm hinstalled => ?_, ?_, changed_eq_false_iff.mpr hsame,
    fun _ _ => changed_of_desiredState⟩
  · obtain ⟨hnone, -⟩ | hcurrent :=
      hsettled (u, desired) (Dict.mem_entries_iff.mpr hget) m hm hinstalled
    · simp only [hasEnforcement, Bool.or_eq_false_iff] at hnone
      rw [hnone.1.1.1, hnone.1.2]
    · simp only [enforcementCurrent, Bool.and_eq_true, decide_eq_true_eq] at hcurrent
      exact hcurrent.1.1
  · refine @Runs.foldl_invariant _ _ (· = syncUserEnforcements h persist enforcements s) _ _ _ rfl
      (fun t item hitem ht => ?_)
    rw [ht]
    exact hsame item hitem

def host : Host := { (default : Host) with sourceIpCidr := fun _ => some "10.0.0.1/32" }

def expired : Node where
  inbounds :=
    [{ tag := "vless-reality", users :=
      [{ login := .name "node-manager:alice", uuid := some "a" }] }]
  rules := [.reject ["bob", "node-manager:bob"], .reject ["alice", "node-manager:alice"]]
  users := ⟨[("alice", { expirationBlocked := true
                         expirationAuthUsers := some ["alice", "node-manager:alice"] }),
    ("bob", { expirationBlocked := true
              expirationAuthUsers := some ["bob", "node-manager:bob"] })], by decide⟩

def wanted (desired : Enforcement) : Dict String Enforcement :=
  ⟨[("alice", desired)], List.nodup_singleton "alice"⟩

theorem traffic_block_fixed : Undivided host true expired "alice" { trafficBlocked := true } ∧
      Fixed host true (wanted { trafficBlocked := true }) expired :=
  have hundivided : Undivided host true expired "alice" { trafficBlocked := true } :=
    fun _ => .inl rfl
  ⟨hundivided, enforcements_fixed host true (wanted { trafficBlocked := true }) expired
    (fun _ => by simp [host]) (List.forall_mem_singleton.mpr hundivided)⟩

/-- The row written for both blocks is never as wanted, and the second application moves the
rules. -/
theorem both_blocks_not_fixed :
    ¬Fixed host true (wanted { trafficBlocked := true, blockedSourceIps :=
      ["10.0.0.1"] }) expired :=
  fun hfixed => absurd hfixed.answered (by decide +kernel)

end NodeManager.EnforcementSync
