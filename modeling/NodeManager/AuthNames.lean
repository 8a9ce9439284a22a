import NodeManager.Operations
import NodeManager.Runs

namespace NodeManager.AuthNames

open Text Dictionary Singbox Identities

def Listed (inbounds : List Inbound) (tag : String) (login : Login) : Prop :=
  ∃ user, Entry inbounds tag user ∧ user.login = login

def recorded (users : Users) (userId : String) : Option String :=
  (registryUser users userId).socksUsername

def Usable (u n : String) : Prop :=
  n ≠ "" ∧ strip n = n ∧ (startsWith n userPrefix = true → n = authName u)

/-- Every entry belongs to one registered user, every recorded SOCKS username to one entry and one
user. -/
structure Separate (h : Host) (s : Node) : Prop where
  valid : ∀ v ∈ s.users.keys, validUserId v = true
  named : ∀ tag n, Listed s.inbounds tag (.name n) → ∃ v ∈ s.users.keys, n = authName v
  usernamed : ∀ tag n, Listed s.inbounds tag (.username n) → tag = h.socksTag ∧
    ∃ v, recorded s.users v = some n
  listed : ∀ v n, recorded s.users v = some n → Listed s.inbounds h.socksTag (.username n)
  usable : ∀ v n, recorded s.users v = some n → Usable v n
  apart : ∀ v n, recorded s.users v = some n → ∀ w ∈ s.users.keys, w ≠ v → n ≠ w ∧
    recorded s.users w ≠ some n

section Names

variable {h : Host} {s s' : Node} {u v n : String} {users : Users}

theorem mem_keys_of_recorded (hn : recorded users u = some n) : u ∈ users.keys := by
  by_contra hu
  rw [recorded, registryUser, Dict.get?_eq_none.mpr hu] at hn
  cases hn

theorem not_prefixed_of_valid (hu : validUserId u = true) : startsWith u userPrefix = false := by
  by_contra hp
  obtain ⟨t, ht⟩ := startsWith_iff.mp (Bool.not_eq_false _ ▸ hp)
  exact validUserId_ne_authName hu t ht

theorem Usable.of_valid (hu : validUserId u = true) : Usable u u := by
  refine ⟨validUserId_ne_empty hu, strip_validUserId hu, ?_⟩
  intro hp
  rw [not_prefixed_of_valid hu] at hp
  cases hp

theorem publicSocksUsername_of_none (hn : recorded users u = none) :
    publicSocksUsername users u = u := by
  rw [recorded] at hn
  rw [publicSocksUsername, hn, publicName, if_pos (Or.inl (by decide))]

theorem publicSocksUsername_of_some (hn : recorded users u = some n) (hu : Usable u n)
    (hne : n ≠ authName u) :
    publicSocksUsername users u = n := by
  rw [recorded] at hn
  rw [publicSocksUsername, hn, Option.getD_some, publicName, hu.2.1, if_neg]
  rintro (he | he)
  · exact hu.1 he
  · exact hne he

theorem publicSocksUsername_of_authName (hn : recorded users u = some n) (hu : Usable u n)
    (heq : n = authName u) :
    publicSocksUsername users u = u := by
  rw [recorded] at hn
  rw [publicSocksUsername, hn, Option.getD_some, publicName, hu.2.1, if_pos (Or.inr heq)]

theorem Separate.mem_names (hs : Separate h s) :
    n ∈ userAuthNames s.users u ↔ n = authName u ∨ n = u ∨ recorded s.users u = some n := by
  rw [mem_userAuthNames]
  cases hr : recorded s.users u with
  | none =>
    rw [publicSocksUsername_of_none hr]
    simp
  | some x =>
    have hx := hs.usable u x hr
    by_cases heq : x = authName u
    · rw [publicSocksUsername_of_authName hr hx heq, heq]
      simp only [Option.some_inj]
      tauto
    · rw [publicSocksUsername_of_some hr hx heq, Option.some_inj, eq_comm (a := x)]

theorem Separate.public_eq (hs : Separate h s) (hn : recorded s.users v = some u)
    (hu : validUserId u = true) :
    publicSocksUsername s.users v = u :=
  publicSocksUsername_of_some hn (hs.usable v u hn) (validUserId_ne_authName hu v)

def Unshared (s : Node) (u : String) : Prop :=
  ∀ v ∈ s.users.keys, v ≠ u → publicSocksUsername s.users v ≠ u

section

variable (hs : Separate h s)
include hs

theorem Separate.unshared (hu : u ∈ s.users.keys) : Unshared s u := by
  intro v hv hne hpublic
  cases hr : recorded s.users v with
  | none =>
    rw [publicSocksUsername_of_none hr] at hpublic
    exact hne hpublic
  | some x =>
    by_cases heq : x = authName v
    · rw [publicSocksUsername_of_authName hr (hs.usable v x hr) heq] at hpublic
      exact hne hpublic
    · rw [publicSocksUsername_of_some hr (hs.usable v x hr) heq] at hpublic
      exact (hs.apart v x hr u hu (Ne.symm hne)).1 hpublic

theorem Separate.owner_unique (hu : validUserId u = true) (hshared : Unshared s u)
    (hv : v ∈ s.users.keys) (hnu : n ∈ userAuthNames s.users u)
    (hnv : n ∈ userAuthNames s.users v) : v = u := by
  have hvalid := hs.valid v hv
  rw [hs.mem_names] at hnu hnv
  by_contra hne
  rcases hnu with rfl | rfl | hru
  · rcases hnv with he | he | hrv
    · exact hne (authName_injective he.symm)
    · exact validUserId_ne_authName hvalid u he.symm
    · exact hne (authName_injective ((hs.usable v _ hrv).2.2 (startsWith_iff.mpr ⟨u, rfl⟩)).symm)
  · rcases hnv with he | he | hrv
    · exact validUserId_ne_authName hu v he
    · exact hne he.symm
    · exact hshared v hv hne (hs.public_eq hrv hu)
  · rcases hnv with rfl | rfl | hrv
    · exact hne (authName_injective ((hs.usable u _ hru).2.2 (startsWith_iff.mpr ⟨v, rfl⟩)))
    · exact (hs.apart u n hru n hv hne).1 rfl
    · exact (hs.apart u n hru v hv hne).2 hrv

theorem Separate.namesDisjoint : NamesDisjoint s := by
  intro u hu v hv hne n hnu hnv
  exact hne (hs.owner_unique (hs.valid u hu) (hs.unshared hu) hv hnu hnv).symm

theorem Separate.exists_owner {tag : String} {user : InboundUser}
    (he : Entry s.inbounds tag user) (hn : user.login = .name n ∨ user.login = .username n) :
    ∃ v ∈ s.users.keys, n ∈ userAuthNames s.users v := by
  rcases hn with hn | hn
  · obtain ⟨v, hv, rfl⟩ := hs.named tag n ⟨user, he, hn⟩
    exact ⟨v, hv, authName_mem s.users v⟩
  · obtain ⟨_, v, hr⟩ := hs.usernamed tag n ⟨user, he, hn⟩
    exact ⟨v, mem_keys_of_recorded hr, hs.mem_names.mpr (Or.inr (Or.inr hr))⟩

theorem Separate.registered (hu : validUserId u = true) (hshared : Unshared s u)
    (he : userExists s.inbounds s.users u = true) : u ∈ s.users.keys := by
  obtain ⟨tag, user, hentry, hc⟩ := userExists_iff.mp he
  obtain ⟨n, hnu, hn⟩ := carries_iff.mp hc
  obtain ⟨v, hv, hnv⟩ := hs.exists_owner hentry hn
  rw [← hs.owner_unique hu hshared hv hnu hnv]
  exact hv

theorem Separate.congr (hkeys : ∀ v, v ∈ s'.users.keys ↔ v ∈ s.users.keys)
    (hrec : ∀ v, recorded s'.users v = recorded s.users v)
    (hlisted : ∀ tag login, Listed s'.inbounds tag login ↔ Listed s.inbounds tag login) :
    Separate h s' := by
  refine ⟨?_, ?_, ?_, ?_, ?_, ?_⟩
  · intro v hv
    exact hs.valid v ((hkeys v).mp hv)
  · intro tag n hn
    simp only [hkeys]
    exact hs.named tag n ((hlisted _ _).mp hn)
  · intro tag n hn
    simp only [hrec]
    exact hs.usernamed tag n ((hlisted _ _).mp hn)
  · intro v n hn
    rw [hrec] at hn
    exact (hlisted _ _).mpr (hs.listed v n hn)
  · intro v n hn
    rw [hrec] at hn
    exact hs.usable v n hn
  · intro v n hn w hw hne
    rw [hrec] at hn ⊢
    exact hs.apart v n hn w ((hkeys w).mp hw) hne

end

end Names

end NodeManager.AuthNames
