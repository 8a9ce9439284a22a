import NodeManager.AccountedOperations

namespace NodeManager.Unblocking

open Singbox Identities Outcomes DenyLedger DenyAccounting DenyRenaming Credentials
  Accounts Operations AccountedOperations Runs

def isRotation : Operation → Bool
  | .credentials _ _ _ _ | .bindProxy _ _ _ _ => true
  | _ => false

/-- A rotation that changes an entry leaves the names recorded for the access block alone, and a
reject rule with the new public name already names the user. -/
def RotationKeepsBlocks (h : Host) (u : String) (s : Node) (username : String) : Prop :=
  let replaced := replacedNames h (userAuthNames s.users u) s.inbounds
  replaced ≠ [] →
    (∀ names ∈ accessList (registryUser s.users u),
      replaceNames username replaced (retainedNames replaced s.inbounds) names = names) ∧
    ∀ rule ∈ s.rules, rule.action = .reject → publicName u username ∈ rule.names →
      rule.touches (userAuthNames s.users u) = true

def Allowed (h : Host) (u : String) (s : Node) (op : Operation) : Prop :=
  (isBlocking op = true ∨ isRotation op = true) ∧ (∀ v ∈ subjects s op, v = u) ∧
    ∀ username ∈ requestedUsername op, RotationKeepsBlocks h u s username

instance (h : Host) (u : String) (s : Node) (username : String) :
    Decidable (RotationKeepsBlocks h u s username) := by
  unfold RotationKeepsBlocks; infer_instance

instance (h : Host) (u : String) (s : Node) (op : Operation) : Decidable (Allowed h u s op) := by
  unfold Allowed; infer_instance

variable {h : Host} {u username : String} {s : Node}

theorem RotationKeepsBlocks.rotateWhen {s₁ : Node} {newUuid : Option String}
    (hk : RotationKeepsBlocks h u s username) (hok : rotateWhen h u newUuid s = .ok s₁) :
    RotationKeepsBlocks h u s₁ username := by
  obtain rfl | ⟨parsed, _, _, _, rfl⟩ := rotateWhen_ok hok
  · exact hk
  unfold RotationKeepsBlocks at hk ⊢
  dsimp only at hk ⊢
  rw [rotateUser, replacedNames_mapUsers (rotateEntry_login h _ _),
    retainedNames_mapUsers (rotateEntry_login h _ _)]
  exact hk

theorem accounted_syncWhen {password : String} {requested : Bool} {s' : Node}
    (hs : AccountedBy ownedRules u s) (hu : u ≠ "")
    (hk : requested = true → RotationKeepsBlocks h u s username)
    (hok : syncWhen h u requested username password s = .ok s') : AccountedBy ownedRules u s' := by
  obtain rfl | ⟨hname, _, hrequested, rfl, hreplaced, _⟩ := syncWhen_ok hok
  · exact hs
  · obtain ⟨haccess, hpublic⟩ := hk hrequested hreplaced
    exact AccountedBy.renameUser ledger_ownedRules hs hu hname haccess hpublic

theorem accounted_step {op : Operation} (hu : u ≠ "") (hs : AccountedBy ownedRules u s)
    (ha : Allowed h u s op) :
    AccountedBy ownedRules u (mutateConfig h op s) := by
  obtain ⟨hb | hr, hsubject, hrotation⟩ := ha
  · exact (AccountedBy.blockingInvariant ledger_ownedRules h hu
      (fun _ _ ht => AccountedBy.syncUserEnforcement ht)).step hb hsubject
      (fun _ _ _ _ _ _ => trivial) hs
  apply orUnchanged_invariant hs
  intro s' hok
  cases op with
  | credentials v uuid socksUsername socksPassword =>
    obtain rfl : v = u := hsubject v (by simp [subjects])
    obtain ⟨_, s₁, hrotate, hsync⟩ := credentials_ok hok
    apply accounted_syncWhen (AccountedBy.rotateWhen hs hrotate) hu _ hsync
    intro hrequested
    refine (hrotation _ ?_).rotateWhen hrotate
    cases socksUsername with
    | none => simp at hrequested
    | some name =>
      have hne : name ≠ "" := by simpa using hrequested
      simp [requestedUsername, hne]
  | bindProxy v proxy sync newUuid =>
    obtain rfl : v = u := hsubject v (by simp [subjects])
    obtain ⟨_, s₁, s₂, hrotate, hsync, hbind⟩ := bindProxy_ok hok
    have hs₂ : AccountedBy ownedRules v s₂ := by
      apply accounted_syncWhen (AccountedBy.rotateWhen hs hrotate) hu _ hsync
      intro hrequested
      refine (hrotation _ ?_).rotateWhen hrotate
      rw [hrequested, requestedUsername]
      exact Option.mem_some_self _
    exact AccountedBy.setProxyBinding
      (AccountedBy.saveProxyMetadata hs₂ ledger_ownedRules h proxy) hbind
  | _ => simp [isRotation] at hr

theorem accounted_start (hu : u ∈ s.users.keys)
    (hs : rejectsNaming (userAuthNames s.users u) s.rules = []) :
    AccountedBy ownedRules u s := by
  refine ⟨hu, ?_⟩
  rw [hs]
  exact List.nil_subperm

theorem not_rejected_of_unblocked (hs : AccountedBy ownedRules u s)
    (hb : blocked (registryUser s.users u) = false) :
    rejectsNaming (userAuthNames s.users u) s.rules = [] := by
  have howned : ownedRules (registryUser s.users u) = [] := by
    simp only [blocked, Bool.or_eq_false_iff] at hb
    obtain ⟨⟨ha, he⟩, ht⟩ := hb
    simp [ownedRules, accessList, expirationList, trafficList, ha, he, ht]
  have hsub := hs.rejects
  rw [howned] at hsub
  exact List.subperm_nil.mp hsub

/-- Unblocking is complete along every run on a registered user whose rotations keep the blocks. -/
theorem unblocked_user_not_rejected (h : Host) (u : String) (ops : List Operation) (s : Node)
    (hu : u ≠ "") (hrow : u ∈ s.users.keys)
    (hstart : rejectsNaming (userAuthNames s.users u) s.rules = [])
    (hp : Permitted (mutateConfig h) (Allowed h u) ops s) :
    blocked (registryUser (run (mutateConfig h) ops s).users u) = false →
      rejectsNaming (userAuthNames (run (mutateConfig h) ops s).users u)
      (run (mutateConfig h) ops s).rules = [] := by
  have hinv : AccountedBy ownedRules u (run (mutateConfig h) ops s) :=
    run_invariant (fun _ _ hs ha => accounted_step hu hs ha) (accounted_start hrow hstart) hp
  exact not_rejected_of_unblocked hinv

def socksUser : Node where
  inbounds := [{ tag := "socks", users := [{ login := .username "old", password := some "p" }] }]
  outbounds := [{ type := .direct, tag := "node-manager-out:alice" }]
  rules := [.route ["node-manager:alice", "old"] "node-manager-out:alice"]
  users := ⟨[("alice", { socksUsername := some "old" })], List.nodup_singleton "alice"⟩

def rotateTo (username : String) : Operation := .credentials "alice" none (some username) (some "q")

def suspend (enabled : Bool) : Operation := .setUserAccess "alice" enabled

theorem unblocked_after_rotation :
    rejectsNaming (userAuthNames (run (mutateConfig default)
      [rotateTo "new", suspend false, suspend true] socksUser).users "alice") (run (mutateConfig
      default) [rotateTo "new", suspend false, suspend true] socksUser).rules = [] :=
  unblocked_user_not_rejected default "alice" [rotateTo "new", suspend false, suspend true]
    socksUser (by decide) (by decide) (by decide) (by decide) (by decide)

/-- A rotation of a suspended user renames the reject rule, but not the list that finds it again. -/
theorem rotated_while_suspended :
    "alice" ∈ socksUser.users.keys ∧
    rejectsNaming (userAuthNames socksUser.users "alice") socksUser.rules = [] ∧
      blocked (registryUser (run (mutateConfig default)
        [suspend false, rotateTo "new", suspend true] socksUser).users "alice") = false ∧
      rejectsNaming (userAuthNames (run (mutateConfig default)
        [suspend false, rotateTo "new", suspend true] socksUser).users "alice") (run (mutateConfig
        default) [suspend false, rotateTo "new", suspend true] socksUser).rules = [.reject ["alice",
        "new", "node-manager:alice"]] := by
  decide

end NodeManager.Unblocking
