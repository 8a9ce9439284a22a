import NodeManager.Bindings

namespace NodeManager.Credentials

open Text Singbox Identities

/-- `names` with every replaced name exchanged for `username`; one that a protocol entry still has
as its `name` is kept. -/
def replaceNames (username : String) (replaced retained names : List String) : List String :=
  sortedSet (names.map (fun name => if name ∈ replaced then username else name) ++
    names.filter (· ∈ retained))

def renameRule (rename : List String → List String) (rule : Rule) : Rule :=
  match rule.authUser with
  | some (.many names) => { rule with authUser := some (.many (rename names)) }
  | _ => rule

def renameMetadata (rename : List String → List String) (username : String)
    (metadata : Metadata) : Metadata :=
  { metadata with
    enforcementAuthUsers := metadata.enforcementAuthUsers.map rename
    expirationAuthUsers := metadata.expirationAuthUsers.map rename
    socksUsername := some username }

def isTarget (h : Host) (oldNames : List String) (tag : String) (user : InboundUser) : Bool :=
  tag = h.socksTag && user.username.any (· ∈ oldNames)

def mapUsers (f : String → InboundUser → InboundUser) (inbounds : List Inbound) : List Inbound :=
  inbounds.map (fun inbound => { inbound with users := inbound.users.map (f inbound.tag) })

def replacedNames (h : Host) (oldNames : List String) (inbounds : List Inbound) : List String :=
  inbounds.flatMap (fun inbound =>
    (inbound.users.filter (isTarget h oldNames inbound.tag)).filterMap (·.username))

def retainedNames (replaced : List String) (inbounds : List Inbound) : List String :=
  inbounds.flatMap (fun inbound => (inbound.users.filterMap (·.name)).filter (· ∈ replaced))

def usernameTaken (h : Host) (oldNames : List String) (username : String)
    (inbounds : List Inbound) : Bool :=
  inbounds.any (fun inbound => inbound.users.any
    (fun user => user.carries [username] && !isTarget h oldNames inbound.tag user))

def renameEntry (h : Host) (oldNames : List String) (username password tag : String)
    (user : InboundUser) :
    InboundUser :=
  if isTarget h oldNames tag user then
    { user with login := .username username, password := some password }
  else user

def renameUser (h : Host) (userId username password : String) (s : Node) : Node :=
  let oldNames := userAuthNames s.users userId
  let replaced := replacedNames h oldNames s.inbounds
  let rename := replaceNames username replaced (retainedNames replaced s.inbounds)
  { s with
    inbounds := mapUsers (renameEntry h oldNames username password) s.inbounds
    rules := s.rules.map (renameRule rename)
    users := (s.users.setDefault userId {}).modify userId (renameMetadata rename username) }

def updateSocksCredentials (h : Host) (userId username password : String) (s : Node) :
    Except String Node :=
  let oldNames := userAuthNames s.users userId
  if username = "" ∨ password = "" ∨ 255 < username.utf8ByteSize ∨ 255 < password.utf8ByteSize then
    .error "SOCKS credentials must contain 1 to 255 bytes"
  else if startsWith username userPrefix then .error "SOCKS username uses a reserved prefix"
  else if replacedNames h oldNames s.inbounds = [] then .ok s
  else if usernameTaken h oldNames username s.inbounds then .error "SOCKS username already exists"
  else .ok (renameUser h userId username password s)

/-- `text.replace(p, "")`; the counter holds the characters of a match still to be skipped. -/
def removeText (p : List Char) : Nat → List Char → List Char
  | _, [] => []
  | skip + 1, _ :: cs => removeText p skip cs
  | 0, c :: cs =>
    if p.isPrefixOf (c :: cs) then removeText p (p.length - 1) cs else c :: removeText p 0 cs

def hexDigit (c : Char) : Option Nat :=
  if '0' ≤ c ∧ c ≤ '9' then some (c.toNat - 48)
  else if 'a' ≤ c ∧ c ≤ 'f' then some (c.toNat - 87)
  else if 'A' ≤ c ∧ c ≤ 'F' then some (c.toNat - 55)
  else none

def hexDigits : List Char → Option (List (Fin 16))
  | [] => some []
  | c :: cs => do
    let d ← hexDigit c
    let ds ← hexDigits cs
    if h : d < 16 then some (⟨d, h⟩ :: ds) else none

abbrev Uuid := List (Fin 16)

def isBrace (c : Char) : Bool := c = '\x7b' || c = '\x7d'

def parseUuid (text : String) : Option Uuid :=
  let hex := removeText "uuid:".toList 0 (removeText "urn:".toList 0 text.toList)
  let hex := (stripWith isBrace (String.ofList hex)).toList.filter (· ≠ '-')
  if hex.length = 32 then hexDigits hex else none

def isVersion4 (value : Uuid) : Bool :=
  value[12]? = some 4 && value[16]?.any (fun digit => 8 ≤ digit.val ∧ digit.val < 12)

def hexChar (digit : Fin 16) : Char := "0123456789abcdef".toList.getD digit.val '0'

def formatUuid (value : Uuid) : String :=
  let hex := value.map hexChar
  String.ofList (hex.take 8 ++ '-' :: (hex.drop 8).take 4 ++ '-' :: (hex.drop 12).take 4 ++
    '-' :: (hex.drop 16).take 4 ++ '-' :: hex.drop 20)

inductive CredentialField
  | uuid
  | password
  deriving DecidableEq, Repr

def credentialField (h : Host) (tag : String) : Option CredentialField :=
  if tag = h.trojanTag then some .password
  else if tag = h.vlessTag ∨ tag = h.vmessTag then some .uuid
  else none

def InboundUser.credential (user : InboundUser) : CredentialField → Option String
  | .uuid => user.uuid
  | .password => user.password

def InboundUser.setCredential (user : InboundUser) (value : String) : CredentialField → InboundUser
  | .uuid => { user with uuid := some value }
  | .password => { user with password := some value }

def rotateEntry (h : Host) (authNames : List String) (value tag : String) (user : InboundUser) :
    InboundUser :=
  match credentialField h tag with
  | some field =>
    if user.carries authNames then InboundUser.setCredential user value field else user
  | none => user

def rotateUser (h : Host) (authNames : List String) (value : String) (inbounds : List Inbound) :
    List Inbound :=
  mapUsers (rotateEntry h authNames value) inbounds

def uuidTaken (h : Host) (authNames : List String) (value : String)
    (inbounds : List Inbound) : Bool :=
  inbounds.any (fun inbound => (credentialField h inbound.tag).any (fun field => inbound.users.any
    (fun user => !user.carries authNames &&
      decide (InboundUser.credential user field = some value))))

def rotateProtocolCredentials (h : Host) (userId newUuid : String) (s : Node) :
    Except String Node :=
  let authNames := userAuthNames s.users userId
  match parseUuid newUuid with
  | none => .error "invalid uuid for credential rotation"
  | some parsed =>
    if isVersion4 parsed = false then .error "credential rotation requires a UUID v4"
    else if uuidTaken h authNames (formatUuid parsed) s.inbounds then .error "uuid already exists"
    else .ok { s with inbounds := rotateUser h authNames (formatUuid parsed) s.inbounds }

theorem mem_replaceNames {username : String} {replaced retained names : List String} {n : String} :
    n ∈ replaceNames username replaced retained names ↔
      (n = username ∧ ∃ old ∈ names, old ∈ replaced) ∨ (n ∈ names ∧ n ∉ replaced) ∨
      (n ∈ names ∧ n ∈ retained) := by
  simp only [replaceNames, mem_sortedSet, List.mem_append, List.mem_map, List.mem_filter,
    decide_eq_true_eq]
  constructor
  · rintro (⟨old, hold, rfl⟩ | h)
    · by_cases hr : old ∈ replaced
      · exact Or.inl ⟨if_pos hr, old, hold, hr⟩
      · rw [if_neg hr]
        exact Or.inr (Or.inl ⟨hold, hr⟩)
    · exact Or.inr (Or.inr h)
  · rintro (⟨rfl, old, hold, hr⟩ | ⟨hn, hr⟩ | h)
    · exact Or.inl ⟨old, hold, if_pos hr⟩
    · exact Or.inl ⟨n, hn, if_neg hr⟩
    · exact Or.inr h

variable {f : String → InboundUser → InboundUser}

theorem replacedNames_mapUsers (hf : ∀ tag user, (f tag user).login = user.login) (h : Host)
    (names : List String) (inbounds : List Inbound) :
    replacedNames h names (mapUsers f inbounds) = replacedNames h names inbounds := by
  have husername : ∀ tag user, (f tag user).username = user.username := by
    intro tag user
    rw [InboundUser.username, hf, InboundUser.username]
  unfold replacedNames mapUsers
  rw [List.flatMap_map]
  apply List.flatMap_congr
  intro inbound _
  rw [List.filter_map, List.filterMap_map]
  congr 1
  · funext user
    exact husername inbound.tag user
  apply List.filter_congr
  intro user _
  simp only [Function.comp_apply, isTarget, husername]

theorem retainedNames_mapUsers (hf : ∀ tag user, (f tag user).login = user.login)
    (names : List String) (inbounds : List Inbound) :
    retainedNames names (mapUsers f inbounds) = retainedNames names inbounds := by
  have hname : ∀ tag user, (f tag user).name = user.name := by
    intro tag user
    rw [InboundUser.name, hf, InboundUser.name]
  unfold retainedNames mapUsers
  rw [List.flatMap_map]
  apply List.flatMap_congr
  intro inbound _
  rw [List.filterMap_map]
  congr 2
  funext user
  exact hname inbound.tag user

theorem rotateEntry_login (h : Host) (authNames : List String) (value tag : String)
    (user : InboundUser) :
    (rotateEntry h authNames value tag user).login = user.login := by
  unfold rotateEntry
  split
  next field _ =>
    split_ifs
    · cases field <;> rfl
    · rfl
  next => rfl

variable {user : InboundUser} {n : String}

theorem username_eq_some : user.username = some n ↔ user.login = .username n := by
  cases hl : user.login <;> simp [InboundUser.username, hl]

theorem name_eq_some : user.name = some n ↔ user.login = .name n := by
  cases hl : user.login <;> simp [InboundUser.name, hl]

variable {h : Host} {names : List String} {inbounds : List Inbound}

theorem mem_replacedNames :
    n ∈ replacedNames h names inbounds ↔ n ∈ names ∧ ∃ user, Entry inbounds h.socksTag user ∧
    user.login = .username n := by
  simp only [replacedNames, List.mem_flatMap, List.mem_filterMap, List.mem_filter, isTarget,
    Bool.and_eq_true, decide_eq_true_eq]
  constructor
  · rintro ⟨inbound, hi, user, ⟨hu, htag, hany⟩, hn⟩
    rw [hn, Option.any_some, decide_eq_true_eq] at hany
    exact ⟨hany, user, ⟨inbound, hi, htag, hu⟩, username_eq_some.mp hn⟩
  · rintro ⟨hn, user, ⟨inbound, hi, htag, hu⟩, hl⟩
    refine ⟨inbound, hi, user, ⟨hu, htag, ?_⟩, username_eq_some.mpr hl⟩
    rw [username_eq_some.mpr hl, Option.any_some, decide_eq_true_eq]
    exact hn

theorem isTarget_iff {tag : String} :
    isTarget h names tag user = true ↔ tag = h.socksTag ∧
    ∃ n ∈ names, user.login = .username n := by
  rw [isTarget, Bool.and_eq_true, decide_eq_true_eq, Option.any_eq_true]
  constructor
  · rintro ⟨htag, n, hn, hmem⟩
    exact ⟨htag, n, by simpa using hmem, username_eq_some.mp hn⟩
  · rintro ⟨htag, n, hn, hl⟩
    exact ⟨htag, n, username_eq_some.mpr hl, by simpa using hn⟩

variable {username : String}

theorem usernameTaken_iff : usernameTaken h names username inbounds = true ↔
      ∃ tag user, Entry inbounds tag user ∧ user.carries [username] = true ∧
      isTarget h names tag user = false := by
  simp only [usernameTaken, List.any_eq_true, Bool.and_eq_true, Bool.not_eq_true']
  constructor
  · rintro ⟨inbound, hi, user, hu, hc, ht⟩
    exact ⟨inbound.tag, user, ⟨inbound, hi, rfl, hu⟩, hc, ht⟩
  · rintro ⟨tag, user, ⟨inbound, hi, rfl, hu⟩, hc, ht⟩
    exact ⟨inbound, hi, user, hu, hc, ht⟩

theorem entry_mapUsers {tag : String} :
    Entry (mapUsers f inbounds) tag user ↔ ∃ old, Entry inbounds tag old ∧ user = f tag old := by
  constructor
  · rintro ⟨inbound', hi', htag, hu⟩
    obtain ⟨inbound, hi, rfl⟩ := List.mem_map.mp hi'
    obtain ⟨old, hold, rfl⟩ := List.mem_map.mp hu
    exact ⟨old, ⟨inbound, hi, htag, hold⟩, by rw [← htag]⟩
  · rintro ⟨old, ⟨inbound, hi, rfl, hold⟩, rfl⟩
    exact ⟨_, List.mem_map_of_mem hi, rfl, List.mem_map_of_mem hold⟩

theorem replacedNames_subset (hn : n ∈ replacedNames h names inbounds) : n ∈ names :=
  (mem_replacedNames.mp hn).1

theorem updateSocksCredentials_ok {u password : String} {s s' : Node}
    (hok : updateSocksCredentials h u username password s = .ok s') :
    username ≠ "" ∧ startsWith username userPrefix = false ∧
      ((s' = s ∧ replacedNames h (userAuthNames s.users u) s.inbounds = []) ∨
        (s' = renameUser h u username password s ∧
          replacedNames h (userAuthNames s.users u) s.inbounds ≠ [] ∧
          usernameTaken h (userAuthNames s.users u) username s.inbounds = false)) := by
  unfold updateSocksCredentials at hok
  dsimp only at hok
  split_ifs at hok with hbytes hreserved hnone htaken
  · cases hok
    exact ⟨fun he => hbytes (Or.inl he), by simpa using hreserved, Or.inl ⟨rfl, hnone⟩⟩
  · cases hok
    exact ⟨fun he => hbytes (Or.inl he), by simpa using hreserved,
      Or.inr ⟨rfl, hnone, by simpa using htaken⟩⟩

theorem rotateProtocolCredentials_ok {u newUuid : String} {s s' : Node}
    (hok : rotateProtocolCredentials h u newUuid s = .ok s') :
    ∃ parsed, parseUuid newUuid = some parsed ∧ isVersion4 parsed = true ∧
      uuidTaken h (userAuthNames s.users u) (formatUuid parsed) s.inbounds = false ∧
      s' = { s with
        inbounds := rotateUser h (userAuthNames s.users u) (formatUuid parsed) s.inbounds } := by
  unfold rotateProtocolCredentials at hok
  dsimp only at hok
  split at hok
  next => cases hok
  next parsed hparse =>
    split_ifs at hok with hversion htaken
    cases hok
    exact ⟨parsed, hparse, by simpa using hversion, by simpa using htaken, rfl⟩

end NodeManager.Credentials
