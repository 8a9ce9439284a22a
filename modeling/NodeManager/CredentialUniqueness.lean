import NodeManager.AuthNameSteps

namespace NodeManager.CredentialUniqueness

open Text Dictionary Singbox Identities Outcomes Bindings Credentials Accounts Operations
  AuthNameSteps Runs

/-- What the core compares: the value of a UUID, the text of a password. -/
def credentialValue (text : String) : CredentialField → String
  | .uuid => ((parseUuid text).map formatUuid).getD text
  | .password => text

def Same (field : CredentialField) (x y : String) : Prop :=
  credentialValue x field = credentialValue y field

instance (field : CredentialField) (x y : String) : Decidable (Same field x y) :=
  inferInstanceAs (Decidable (credentialValue x field = credentialValue y field))

def Owned (h : Host) (inbounds : List Inbound) (tag : String) (field : CredentialField)
    (u x : String) : Prop :=
  credentialField h tag = some field ∧
    ∃ user, Entry inbounds tag user ∧ user.login = .name (authName u) ∧
    InboundUser.credential user field = some x

instance (h : Host) (inbounds : List Inbound) (tag : String) (field : CredentialField)
    (u x : String) :
    Decidable (Owned h inbounds tag field u x) :=
  decidable_of_iff (credentialField h tag = some field ∧ ∃ inbound ∈ inbounds, inbound.tag = tag ∧
      ∃ user ∈ inbound.users, user.login = .name (authName u) ∧
      InboundUser.credential user field = some x) <| by
    constructor
    · rintro ⟨hfield, inbound, hi, htag, user, hu, hl, hx⟩
      exact ⟨hfield, user, ⟨inbound, hi, htag, hu⟩, hl, hx⟩
    · rintro ⟨hfield, user, ⟨inbound, hi, htag, hu⟩, hl, hx⟩
      exact ⟨hfield, inbound, hi, htag, user, hu, hl, hx⟩

def CredentialsUnique (h : Host) (s : Node) : Prop :=
  ∀ tag field u v x y, Owned h s.inbounds tag field u x → Owned h s.inbounds tag field v y → u ≠ v →
    ¬ Same field x y

variable {h : Host} {s s' : Node} {u : String} {request : CreateUser} {field : CredentialField}
  {x v value : String} {names : List String}

theorem CredentialsUnique.write (hs : CredentialsUnique h s) {new : String}
    (hnew : ∀ tag field v x, Owned h s'.inbounds tag field v x → Owned h s.inbounds tag field v x ∨
      (v = u ∧ x = new ∧ ∀ w y, w ≠ u → Owned h s.inbounds tag field w y → ¬ Same field y new)) :
    CredentialsUnique h s' := by
  intro tag field v w x y hv hw hne hsame
  rcases hnew tag field v x hv with hv | ⟨rfl, rfl, hfree⟩
  · rcases hnew tag field w y hw with hw | ⟨rfl, rfl, hfree⟩
    · exact hs tag field v w x y hv hw hne hsame
    · exact hfree v x hne hv hsame
  · rcases hnew tag field w y hw with hw | ⟨rfl, _, _⟩
    · exact hfree w y (Ne.symm hne) hw hsame.symm
    · exact hne rfl

theorem CredentialsUnique.mono (hs : CredentialsUnique h s)
    (hold : ∀ tag field v x, Owned h s'.inbounds tag field v x → Owned h s.inbounds tag field v x) :
    CredentialsUnique h s' := by
  intro tag field v w x y hv hw
  exact hs tag field v w x y (hold tag field v x hv) (hold tag field w y hw)

theorem credential_entry {p : Protocol} {n : String} (hl : (request.entry p).login = .name n)
    (hx : InboundUser.credential (request.entry p) field = some x) : x = request.effectiveUuid := by
  cases p <;> cases field <;> simp [CreateUser.entry, InboundUser.credential] at hl hx <;>
    exact hx.symm

theorem owned_createUser (hok : createUser h request s = .ok s') {tag : String}
    (ho : Owned h s'.inbounds tag field v x) :
    Owned h s.inbounds tag field v x ∨
      (v = request.userId ∧ x = request.effectiveUuid ∧
        ∃ p ∈ request.protocols, tag = protocolTag h p) := by
  obtain ⟨_, _, inbounds, hinstall, _, hbind⟩ := createUser_ok hok
  obtain ⟨hin, _, _⟩ := bindCreated_frame (Dict.mem_keys_set.mpr (Or.inl rfl)) hbind
  obtain ⟨hfield, user, he, hl, hx⟩ := ho
  rw [hin] at he
  rcases (entry_installUser hinstall).mp he with he | ⟨p, hp, htag, rfl⟩
  · exact Or.inl ⟨hfield, user, he, hl, hx⟩
  · exact Or.inr ⟨authName_injective (login_entry.1 hl), credential_entry hl hx, p, hp, htag⟩

def FreshUuid (h : Host) (s : Node) (request : CreateUser) : Prop :=
  ∀ inbound ∈ s.inbounds, inbound.tag ∈ request.protocols.map (protocolTag h) →
    ∀ field ∈ credentialField h inbound.tag, ∀ user ∈ inbound.users,
    ∀ x ∈ InboundUser.credential user field,
      ¬ Same field x request.effectiveUuid

theorem unique_createUser (hs : CredentialsUnique h s) (hfresh : FreshUuid h s request)
    (hok : createUser h request s = .ok s') : CredentialsUnique h s' := by
  apply hs.write
  intro tag field v x ho
  rcases owned_createUser hok ho with ho | ⟨hv, hx, p, hp, rfl⟩
  · exact Or.inl ho
  refine Or.inr ⟨hv, hx, ?_⟩
  rintro w y _ ⟨hfield, user, ⟨inbound, hi, htag, hu⟩, _, hy⟩
  exact hfresh inbound hi (htag ▸ List.mem_map_of_mem hp) field (htag ▸ hfield) user hu y hy

/-- A rotation reaches no entry of another user, and another holder of the new UUID has it in the
canonical spelling. -/
def Rotatable (h : Host) (s : Node) (u newUuid : String) : Prop :=
  validUserId u = true ∧ startsWith (publicSocksUsername s.users u) userPrefix = false ∧
    ∀ value ∈ parseUuid newUuid, ∀ inbound ∈ s.inbounds, ∀ field ∈ credentialField h inbound.tag,
      ∀ user ∈ inbound.users, user.carries (userAuthNames s.users u) = false →
        ∀ x ∈ InboundUser.credential user field, Same field x (formatUuid value) →
        x = formatUuid value

instance (h : Host) (s : Node) (request : CreateUser) : Decidable (FreshUuid h s request) := by
  unfold FreshUuid; infer_instance

instance (h : Host) (s : Node) (u newUuid : String) : Decidable (Rotatable h s u newUuid) := by
  unfold Rotatable; infer_instance

theorem eq_of_authName_mem {users : Users} (hu : validUserId u = true)
    (hreserved : startsWith (publicSocksUsername users u) userPrefix = false)
    (hv : authName v ∈ userAuthNames users u) : v = u := by
  rcases mem_userAuthNames.mp hv with he | he | he
  · exact authName_injective he
  · exact (validUserId_ne_authName hu v he.symm).elim
  · rw [← he, authName, startsWith_iff.mpr ⟨v, rfl⟩] at hreserved
    cases hreserved

theorem credential_setCredential (user : InboundUser) (value : String) (field : CredentialField) :
    InboundUser.credential (InboundUser.setCredential user value field) field = some value := by
  cases field <;> rfl

theorem owned_rotateUser {tag : String}
    (ho : Owned h (rotateUser h names value s.inbounds) tag field v x) :
    Owned h s.inbounds tag field v x ∨ (authName v ∈ names ∧ x = value) := by
  obtain ⟨hfield, user, he, hl, hx⟩ := ho
  obtain ⟨old, hold, rfl⟩ := entry_mapUsers.mp he
  rw [rotateEntry_login] at hl
  cases hc : old.carries names with
  | true =>
    obtain ⟨n, hn, hlogin⟩ := carries_iff.mp hc
    rw [hl, Login.name.injEq] at hlogin
    rw [hlogin.resolve_right (fun he => by cases he)]
    rw [rotateEntry, hfield] at hx
    dsimp only at hx
    rw [if_pos hc, credential_setCredential, Option.some_inj] at hx
    exact Or.inr ⟨hn, hx.symm⟩
  | false =>
    rw [rotateEntry, hfield] at hx
    dsimp only at hx
    rw [if_neg (by rw [hc]; exact Bool.false_ne_true)] at hx
    exact Or.inl ⟨hfield, old, hold, hl, hx⟩

theorem ne_of_not_taken (htaken : uuidTaken h names value s.inbounds = false) {inbound : Inbound}
    (hi : inbound ∈ s.inbounds) (hfield : credentialField h inbound.tag = some field)
    {user : InboundUser} (hu : user ∈ inbound.users) (hc : user.carries names = false) :
    InboundUser.credential user field ≠ some value := by
  intro hx
  have htrue : uuidTaken h names value s.inbounds = true := by
    simp only [uuidTaken, List.any_eq_true]
    refine ⟨inbound, hi, ?_⟩
    rw [hfield, Option.any_some, List.any_eq_true]
    exact ⟨user, hu, by simp [hc, hx]⟩
  cases htaken.symm.trans htrue

theorem unique_rotateWhen (hs : CredentialsUnique h s) {newUuid : Option String}
    (hr : newUuid.getD "" ≠ "" → Rotatable h s u (newUuid.getD ""))
    (hok : rotateWhen h u newUuid s = .ok s') :
    CredentialsUnique h s' := by
  obtain rfl | ⟨value, hparse, _, htaken, rfl⟩ := rotateWhen_ok hok
  · exact hs
  have hne : newUuid.getD "" ≠ "" := by
    intro he
    rw [he] at hparse
    cases hparse
  obtain ⟨hvalid, hreserved, hspelling⟩ := hr hne
  apply hs.write
  intro tag field v x ho
  rcases owned_rotateUser ho with ho | ⟨hv, hx⟩
  · exact Or.inl ho
  refine Or.inr ⟨eq_of_authName_mem hvalid hreserved hv, hx, ?_⟩
  rintro w y hw ⟨hfield, user, ⟨inbound, hi, rfl, hu⟩, hl, hy⟩ hsame
  have hc : user.carries (userAuthNames s.users u) = false := by
    rw [Bool.eq_false_iff, ne_eq, carries_iff]
    rintro ⟨n, hn, hlogin⟩
    rw [hl, Login.name.injEq] at hlogin
    rw [← hlogin.resolve_right (fun he => by cases he)] at hn
    exact hw (eq_of_authName_mem hvalid hreserved hn)
  have heq := hspelling value hparse inbound hi field hfield user hu hc y hy hsame
  rw [heq] at hy
  exact ne_of_not_taken htaken hi hfield hu hc hy

theorem unique_syncWhen (hs : CredentialsUnique h s) {requested : Bool} {username password : String}
    (hok : syncWhen h u requested username password s = .ok s') : CredentialsUnique h s' := by
  obtain rfl | ⟨_, _, _, rfl, _, _⟩ := syncWhen_ok hok
  · exact hs
  apply hs.mono
  rintro tag field v x ⟨hfield, user, he, hl, hx⟩
  obtain ⟨old, hold, rfl⟩ := entry_mapUsers.mp he
  unfold renameEntry at hl hx
  split_ifs at hl hx
  exact ⟨hfield, old, hold, hl, hx⟩

theorem unique_deleteUser (hs : CredentialsUnique h s) : CredentialsUnique h (deleteUser u s) := by
  apply hs.mono
  rintro tag field v x ⟨hfield, user, he, hl, hx⟩
  exact ⟨hfield, user, (entry_withoutUsers.mp he).1, hl, hx⟩

/-- A creation with a fresh UUID, a rotation to a UUID that no other user holds in another spelling,
a deletion. -/
def Allowed (h : Host) (s : Node) : Operation → Prop
  | .createUser request => FreshUuid h s request
  | .bindProxy u _ _ newUuid => newUuid.getD "" ≠ "" → Rotatable h s u (newUuid.getD "")
  | .credentials u newUuid _ _ => newUuid.getD "" ≠ "" → Rotatable h s u (newUuid.getD "")
  | .deleteUser _ => True
  | _ => False

instance (h : Host) (s : Node) (op : Operation) : Decidable (Allowed h s op) := by
  rcases op <;> (unfold Allowed; infer_instance)

theorem unique_step {op : Operation} (hs : CredentialsUnique h s) (ha : Allowed h s op) :
    CredentialsUnique h (mutateConfig h op s) := by
  apply orUnchanged_invariant hs
  intro s' hok
  cases op with
  | createUser request => exact unique_createUser hs ha hok
  | bindProxy u proxy sync newUuid =>
    obtain ⟨_, s₁, s₂, hrotate, hsync, hbind⟩ := bindProxy_ok hok
    have hs₂ : CredentialsUnique h s₂ := unique_syncWhen (unique_rotateWhen hs ha hrotate) hsync
    obtain ⟨rfl, _, _⟩ := setProxyBinding_ok hbind
    exact hs₂
  | credentials u uuid socksUsername socksPassword =>
    obtain ⟨_, s₁, hrotate, hsync⟩ := credentials_ok hok
    exact unique_syncWhen (unique_rotateWhen hs ha hrotate) hsync
  | deleteUser u =>
    cases hok
    exact unique_deleteUser hs
  | _ => exact ha.elim

theorem unique_start (hentries : ∀ inbound ∈ s.inbounds, inbound.users = []) :
    CredentialsUnique h s := by
  rintro tag field u v x y ⟨_, user, ⟨inbound, hi, _, hu⟩, _⟩
  rw [hentries inbound hi] at hu
  cases hu

/-- Protocol credentials stay unique along every such run from a configuration without users. -/
theorem protocol_credentials_unique (h : Host) (ops : List Operation) (s : Node)
    (hentries : ∀ inbound ∈ s.inbounds, inbound.users = [])
    (hp : Permitted (mutateConfig h) (Allowed h) ops s) :
    CredentialsUnique h (run (mutateConfig h) ops s) :=
  run_invariant (fun _ _ hs ha => unique_step hs ha) (unique_start hentries) hp

def protocolNode : Node :=
  { inbounds := [{ tag := "vless-reality" }, { tag := "vmess" }, { tag := "trojan" },
    { tag := "socks" }] }

def firstUuid : String := "3f2b8c1a-5d4e-4a6b-9c7d-0e1f2a3b4c5d"

def secondUuid : String := "9a8b7c6d-5e4f-4321-8765-abcdefabcdef"

def upperUuid : String := "9A8B7C6D-5E4F-4321-8765-ABCDEFABCDEF"

def createHolding (userId uuid : String) : Operation :=
  .createUser { userId := userId, protocols := [.vless, .vmess, .trojan], userUuid := some uuid }

def rotation (userId uuid : String) : Operation := .credentials userId (some uuid) none none

def credentialRun : List Operation :=
  [createHolding "v" firstUuid, createHolding "w" secondUuid, .deleteUser "v",
    rotation "w" firstUuid, createHolding "v" upperUuid]

theorem credential_run_unique :
    (run (mutateConfig default) credentialRun protocolNode).users.keys = ["w", "v"] ∧
      CredentialsUnique default (run (mutateConfig default) credentialRun protocolNode) :=
  ⟨by decide, protocol_credentials_unique default credentialRun protocolNode (by decide)
    (by decide)⟩

/-- Two creations may name one UUID, and a rotation misses a UUID that another user holds in
capitals. -/
theorem users_share_credentials : (∀ inbound ∈ protocolNode.inbounds, inbound.users = []) ∧
      ¬ CredentialsUnique default
        (run (mutateConfig default) [createHolding "v" firstUuid, createHolding "w" firstUuid]
          protocolNode) ∧
      ¬ CredentialsUnique default (run (mutateConfig default)
        [createHolding "v" upperUuid, createHolding "w" firstUuid, rotation "w" secondUuid]
        protocolNode) := by
  refine ⟨by decide, ?_, ?_⟩
  · intro hs
    exact hs "trojan" .password "v" "w" firstUuid firstUuid (by decide) (by decide) (by decide) rfl
  · intro hs
    exact hs "vless-reality" .uuid "v" "w" upperUuid secondUuid (by decide) (by decide)
      (by decide) (by decide)

end NodeManager.CredentialUniqueness
