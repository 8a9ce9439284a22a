import NodeManager.Singbox

namespace NodeManager.Identities

open Text Dictionary Singbox

def userPrefix : String := "node-manager:"

def userOutboundPrefix : String := "node-manager-out:"

def authName (userId : String) : String := userPrefix ++ userId

def outboundTag (userId : String) : String := userOutboundPrefix ++ userId

def legacyAuthNames (userId : String) : List String := [authName userId, userId]

def registryUser (users : Users) (userId : String) : Metadata := (users.get? userId).getD {}

def publicName (userId configured : String) : String :=
  if strip configured = "" ∨ strip configured = authName userId then userId else strip configured

def publicSocksUsername (users : Users) (userId : String) : String :=
  publicName userId ((registryUser users userId).socksUsername.getD "")

def userAuthNames (users : Users) (userId : String) : List String :=
  legacyAuthNames userId ++ [publicSocksUsername users userId]

def existingAuthNames (inbounds : List Inbound) : List String :=
  (inbounds.flatMap (fun inbound => inbound.users.flatMap
    (fun user => user.name.toList ++ user.username.toList))).filter (· ≠ "")

def userExists (inbounds : List Inbound) (users : Users) (userId : String) : Bool :=
  inbounds.any (fun inbound => inbound.users.any (·.carries (userAuthNames users userId)))

def authIdentifierExists (inbounds : List Inbound) (identifier : String) : Bool :=
  inbounds.any (fun inbound => inbound.users.any (·.carries [identifier]))

def routeAuthNames (inbounds : List Inbound) (users : Users) (userId : String) : List String :=
  [authName userId, publicSocksUsername users userId] ++
    if authIdentifierExists inbounds userId then [userId] else []

def extractUserId (value : String) : Option String :=
  if startsWith value userPrefix then some (dropPrefix value userPrefix) else none

/-- `_discover_user_ids`, listed without repetition; Python iterates over the set in any order. -/
def discoverUserIds (inbounds : List Inbound) (users : Users) : List String :=
  (users.keys ++ (inbounds.flatMap (fun inbound => inbound.users.flatMap
    (fun user => (user.name.toList ++ user.username.toList).filterMap extractUserId))).filter
    (· ≠ "")).dedup

def mappedNames (inbounds : List Inbound) (users : Users) (userId : String) : List String :=
  ([authName userId, publicSocksUsername users userId] ++
    if userId ∈ existingAuthNames inbounds then [userId] else []).filter (· ≠ "")

/-- `get_user_auth_map` for one order in which the set of discovered ids is visited. -/
def getUserAuthMap (inbounds : List Inbound) (users : Users) (order : List String) :
    Dict String String :=
  order.foldl (fun result userId =>
    (mappedNames inbounds users userId).foldl (fun result name => result.set name userId)
      result) Dict.empty

def findInbound (inbounds : List Inbound) (tag : String) : Except String Inbound :=
  match inbounds.find? (·.tag = tag) with
  | some inbound => .ok inbound
  | none => .error ("required inbound not found: " ++ tag)

def installedNames (s : Node) (userId : String) : List String :=
  (userAuthNames s.users userId).filter (· ∈ existingAuthNames s.inbounds)

def Entry (inbounds : List Inbound) (tag : String) (user : InboundUser) : Prop :=
  ∃ inbound ∈ inbounds, inbound.tag = tag ∧ user ∈ inbound.users

def NamesDisjoint (s : Node) : Prop :=
  ∀ u ∈ s.users.keys, ∀ v ∈ s.users.keys, u ≠ v →
    (userAuthNames s.users u).Disjoint (userAuthNames s.users v)

instance (s : Node) : Decidable (NamesDisjoint s) := by
  unfold NamesDisjoint List.Disjoint; infer_instance

theorem carries_iff {user : InboundUser} {names : List String} :
    user.carries names = true ↔ ∃ n ∈ names, user.login = .name n ∨ user.login = .username n := by
  cases h : user.login <;> simp [InboundUser.carries, InboundUser.name, InboundUser.username, h]

variable {u : String}

theorem authName_injective {v : String} (h : authName u = authName v) : u = v :=
  append_right_injective userPrefix h

theorem outboundTag_injective {v : String} (h : outboundTag u = outboundTag v) : u = v :=
  append_right_injective userOutboundPrefix h

theorem authName_mem (users : Users) (userId : String) :
    authName userId ∈ userAuthNames users userId := by
  simp [userAuthNames, legacyAuthNames]

variable {users : Users} {userId n : String}

theorem mem_userAuthNames :
    n ∈ userAuthNames users userId ↔ n = authName userId ∨ n = userId ∨
    n = publicSocksUsername users userId := by
  simp [userAuthNames, legacyAuthNames]

variable {users' : Users}

theorem publicSocksUsername_congr
    (h : (registryUser users' userId).socksUsername = (registryUser users userId).socksUsername) :
    publicSocksUsername users' userId = publicSocksUsername users userId := by
  rw [publicSocksUsername, h, publicSocksUsername]

theorem userAuthNames_congr
    (h : (registryUser users' userId).socksUsername = (registryUser users userId).socksUsername) :
    userAuthNames users' userId = userAuthNames users userId := by
  rw [userAuthNames, publicSocksUsername_congr h, userAuthNames]

theorem installedNames_congr {s s' : Node} {u : String} (hin : s'.inbounds = s.inbounds)
    (hsocks : (registryUser s'.users u).socksUsername = (registryUser s.users u).socksUsername) :
    installedNames s' u = installedNames s u := by
  rw [installedNames, hin, userAuthNames_congr hsocks, installedNames]

variable {inbounds : List Inbound}

theorem userExists_iff : userExists inbounds users userId = true ↔
      ∃ tag user, Entry inbounds tag user ∧ user.carries (userAuthNames users userId) = true := by
  simp only [userExists, List.any_eq_true]
  constructor
  · rintro ⟨inbound, hi, user, hu, hc⟩
    exact ⟨inbound.tag, user, ⟨inbound, hi, rfl, hu⟩, hc⟩
  · rintro ⟨tag, user, ⟨inbound, hi, _, hu⟩, hc⟩
    exact ⟨inbound, hi, user, hu, hc⟩

theorem authIdentifierExists_iff : authIdentifierExists inbounds n = true ↔
      ∃ tag user, Entry inbounds tag user ∧ (user.login = .name n ∨ user.login = .username n) := by
  simp only [authIdentifierExists, List.any_eq_true, carries_iff, List.mem_singleton,
    exists_eq_left]
  constructor
  · rintro ⟨inbound, hi, user, hu, hc⟩
    exact ⟨inbound.tag, user, ⟨inbound, hi, rfl, hu⟩, hc⟩
  · rintro ⟨tag, user, ⟨inbound, hi, _, hu⟩, hc⟩
    exact ⟨inbound, hi, user, hu, hc⟩

theorem mem_existingAuthNames :
    n ∈ existingAuthNames inbounds ↔ n ≠ "" ∧ authIdentifierExists inbounds n = true := by
  simp only [existingAuthNames, authIdentifierExists, List.mem_filter, List.mem_flatMap,
    List.any_eq_true, InboundUser.carries, List.mem_append, Option.mem_toList, Bool.or_eq_true,
    Option.any_eq_true_iff_get, decide_eq_true_eq, List.mem_singleton]
  constructor
  · rintro ⟨⟨i, hi, user, hu, hn⟩, hne⟩
    refine ⟨hne, i, hi, user, hu, ?_⟩
    rcases hn with hn | hn
    · exact Or.inl (by simp [hn])
    · exact Or.inr (by simp [hn])
  · rintro ⟨hne, i, hi, user, hu, hn⟩
    refine ⟨⟨i, hi, user, hu, ?_⟩, hne⟩
    rcases hn with ⟨hs, hn⟩ | ⟨hs, hn⟩
    · exact Or.inl (by rw [← hn, Option.some_get])
    · exact Or.inr (by rw [← hn, Option.some_get])

theorem authName_ne_empty (u : String) : authName u ≠ "" := by
  intro h
  have := congrArg String.toList h
  simp [authName, userPrefix] at this

theorem publicName_ne_empty (hu : u ≠ "") (configured : String) : publicName u configured ≠ "" := by
  unfold publicName
  split_ifs with h
  · exact hu
  · exact fun he => h (Or.inl he)

theorem empty_not_mem_userAuthNames (hu : u ≠ "") : "" ∉ userAuthNames users u := by
  rw [mem_userAuthNames]
  rintro (h | h | h)
  · exact authName_ne_empty u h.symm
  · exact hu h.symm
  · exact publicName_ne_empty hu _ h.symm

theorem mappedNames_subset (hn : n ∈ mappedNames inbounds users u) : n ∈ userAuthNames users u := by
  simp only [mappedNames, List.mem_filter, List.mem_append, List.mem_cons, List.not_mem_nil,
    or_false] at hn
  rw [mem_userAuthNames]
  rcases hn.1 with (h | h) | h
  · exact Or.inl h
  · exact Or.inr (Or.inr h)
  split at h
  · exact Or.inr (Or.inl (List.mem_singleton.mp h))
  · simp at h

theorem authName_mem_mappedNames (inbounds : List Inbound) (users : Users) (u : String) :
    authName u ∈ mappedNames inbounds users u := by
  simp [mappedNames, authName_ne_empty]

theorem installed_mem_mappedNames {s : Node} (hn : n ∈ installedNames s u) :
    n ∈ mappedNames s.inbounds s.users u := by
  rw [installedNames, List.mem_filter, mem_userAuthNames, decide_eq_true_eq] at hn
  obtain ⟨hn, he⟩ := hn
  have hne : n ≠ "" := (mem_existingAuthNames.mp he).1
  simp only [mappedNames, List.mem_filter, List.mem_append, List.mem_cons,
    List.not_mem_nil, or_false]
  refine ⟨?_, by simpa using hne⟩
  rcases hn with rfl | rfl | rfl
  · exact Or.inl (Or.inl rfl)
  · exact Or.inr (by rw [if_pos he]; exact List.mem_singleton.mpr rfl)
  · exact Or.inl (Or.inr rfl)

theorem installed_mem_routeAuthNames {s : Node} (hn : n ∈ installedNames s u) :
    n ∈ routeAuthNames s.inbounds s.users u := by
  rw [installedNames, List.mem_filter, mem_userAuthNames, decide_eq_true_eq] at hn
  obtain ⟨hn, he⟩ := hn
  simp only [routeAuthNames, List.mem_append, List.mem_cons, List.not_mem_nil, or_false]
  rcases hn with rfl | rfl | rfl
  · exact Or.inl (Or.inl rfl)
  · exact Or.inr (by rw [if_pos (mem_existingAuthNames.mp he).2]; exact List.mem_singleton.mpr rfl)
  · exact Or.inl (Or.inr rfl)

theorem extractUserId_eq_some : extractUserId n = some u ↔ n = authName u := by
  unfold extractUserId
  constructor
  · intro h
    split_ifs at h with hp
    obtain ⟨t, rfl⟩ := startsWith_iff.mp hp
    rw [dropPrefix_append, Option.some_inj] at h
    rw [h, authName]
  · rintro rfl
    rw [authName, if_pos (startsWith_iff.mpr ⟨u, rfl⟩), dropPrefix_append]

section

variable (hu : validUserId u = true)
include hu

theorem validUserId_ne_empty : u ≠ "" := by
  rintro rfl
  revert hu
  decide

theorem mem_of_validUserId {c : Char} (hc : c ∈ u.toList) :
    (c.isAlphanum || c = '.' || c = '_' || c = '-') = true := by
  rw [validUserId, Bool.and_eq_true, List.all_eq_true] at hu
  exact hu.1 c hc

theorem strip_validUserId : strip u = u := by
  apply strip_eq_self
  intro c hc
  by_contra hs
  rw [Bool.not_eq_false, isSpace, decide_eq_true_eq] at hs
  have hspaces : ∀ k ∈ [9, 10, 11, 12, 13, 28, 29, 30, 31, 32, 133, 160, 5760, 8192, 8193, 8194,
        8195, 8196, 8197, 8198, 8199, 8200, 8201, 8202, 8232, 8233, 8239, 8287, 12288],
      ((Char.ofNat k).isAlphanum || Char.ofNat k = '.' || Char.ofNat k = '_' ||
        Char.ofNat k = '-') = false := by
    decide
  have hno := hspaces c.toNat hs
  rw [Char.ofNat_toNat, mem_of_validUserId hu hc] at hno
  cases hno

theorem validUserId_ne_authName (v : String) : u ≠ authName v := by
  rintro rfl
  have hcolon : ':' ∈ (authName v).toList := by
    rw [authName, String.toList_append]
    exact List.mem_append_left _ (by decide)
  have := mem_of_validUserId hu hcolon
  revert this
  decide

end

end NodeManager.Identities
