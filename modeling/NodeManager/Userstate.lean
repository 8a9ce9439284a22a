import NodeManager.Dictionary
import NodeManager.Runs

namespace NodeManager.Userstate

open Dictionary Runs

abbrev Token := Nat

abbrev Handle := Nat

structure Entry where
  fingerprint : String
  identity : Token
  deriving DecidableEq, Repr

structure Session where
  identity : Option Token := none
  closed : Bool := false
  deriving DecidableEq, Repr

/-- `home` remembers the table and the name that an identity was made for. -/
structure Manager where
  allocated : Nat := 0
  home : Token → String × String := fun _ => ("", "")
  valid : Token → Bool := fun _ => false
  tables : String → Dict String Entry := fun _ => Dict.empty
  opened : Nat := 0
  session : Handle → Session := fun _ => {}
  sessions : List (Token × Handle) := []

structure Prepared where
  table : String
  next : Dict String Entry
  retired : List Token

namespace Manager

def newIdentity (m : Manager) (table name : String) : Manager :=
  { m with allocated := m.allocated + 1, home := Function.update m.home m.allocated (table, name) }

def reusable (m : Manager) (table : String) (force : List String) (name fingerprint : String) :
    Option Entry :=
  ((m.tables table).get? name).filter (fun old => old.fingerprint = fingerprint ∧ name ∉ force)

def prepareUser (table : String) (force : List String) (state : Manager × Dict String Entry)
    (user : String × String) : Manager × Dict String Entry :=
  match state.1.reusable table force user.1 user.2 with
  | some old => (state.1, state.2.set user.1 old)
  | none => (state.1.newIdentity table user.1, state.2.set user.1 ⟨user.2, state.1.allocated⟩)

def retiredBy (users next : Dict String Entry) : List Token :=
  users.entries.filterMap (fun entry =>
    if (next.get? entry.1).map Entry.identity = some entry.2.identity then none
    else some entry.2.identity)

/-- "Prepare is read-only": besides the new identities nothing changes before the publication. -/
def prepare (m : Manager) (table : String) (fingerprints : Dict String String)
    (force : List String) :
    Manager × Prepared :=
  let result := fingerprints.entries.foldl (prepareUser table force) (m, Dict.empty)
  (result.1, ⟨table, result.2, retiredBy (m.tables table) result.2⟩)

def publish (m : Manager) (p : Prepared) : Manager :=
  { m with
    valid := fun token =>
      if token ∈ p.next.entries.map (·.2.identity) then true else if token ∈ p.retired then false
        else m.valid token
    tables := Function.update m.tables p.table p.next }

def clear (m : Manager) (table : String) : Manager × List Token :=
  let retired := (m.tables table).entries.map (·.2.identity)
  ({ m with
    valid := fun token => if token ∈ retired then false else m.valid token
    tables := Function.update m.tables table Dict.empty }, retired)

def sessionsOf (m : Manager) (retired : List Token) : List Handle :=
  retired.flatMap (fun token => (m.sessions.filter (·.1 = token)).map Prod.snd)

def newSession (m : Manager) : Manager := { m with opened := m.opened + 1 }

def setSession (m : Manager) (handle : Handle) (session : Session) : Manager :=
  { m with session := Function.update m.session handle session }

def close (m : Manager) (handle : Handle) : Manager :=
  if (m.session handle).closed then m
  else
    { m.setSession handle { m.session handle with closed := true } with
      sessions := m.sessions.filter (fun entry =>
        ¬((m.session handle).identity = some entry.1 ∧ entry.2 = handle)) }

def bind (m : Manager) (handle : Handle) (token : Token) : Manager × Bool :=
  let session := m.session handle
  if m.opened ≤ handle ∨ session.closed ∨ session.identity.any (· ≠ token) then (m, false)
  else if session.identity = none then
    ({ m.setSession handle { session with identity := some token } with
      sessions := m.sessions ++ [(token, handle)] }, true)
  else (m, true)

def commit (m : Manager) (publications : List Prepared) : Manager :=
  let published := publications.foldl publish m
  (published.sessionsOf (publications.flatMap Prepared.retired)).foldl close published

structure Extends (m m' : Manager) : Prop where
  allocated : m.allocated ≤ m'.allocated
  home : ∀ token, token < m.allocated → m'.home token = m.home token
  valid : m'.valid = m.valid
  tables : m'.tables = m.tables
  opened : m'.opened = m.opened
  session : m'.session = m.session
  sessions : m'.sessions = m.sessions

theorem Extends.refl (m : Manager) : Extends m m :=
  ⟨Nat.le_refl _, fun _ _ => rfl, rfl, rfl, rfl, rfl, rfl⟩

variable {m m' : Manager}

theorem Extends.trans {m'' : Manager} (h : Extends m m') (h' : Extends m' m'') : Extends m m'' where
  allocated := Nat.le_trans h.allocated h'.allocated
  home token htoken := (h'.home token (Nat.lt_of_lt_of_le htoken h.allocated)).trans
    (h.home token htoken)
  valid := h'.valid.trans h.valid
  tables := h'.tables.trans h.tables
  opened := h'.opened.trans h.opened
  session := h'.session.trans h.session
  sessions := h'.sessions.trans h.sessions

theorem newIdentity_extends (m : Manager) (table name : String) :
    Extends m (m.newIdentity table name) where
  allocated := Nat.le_succ _
  home _ htoken := Function.update_of_ne (Nat.ne_of_lt htoken) _ _
  valid := rfl
  tables := rfl
  opened := rfl
  session := rfl
  sessions := rfl

theorem reusable_congr (h : m'.tables = m.tables) (table : String) (force : List String)
    (name fingerprint : String) :
    m'.reusable table force name fingerprint = m.reusable table force name fingerprint := by
  rw [reusable, reusable, h]

def Renewed (m m' : Manager) (table : String) (force : List String) (name fingerprint : String)
    (entry : Entry) : Prop :=
  m.reusable table force name fingerprint = some entry ∨
    (m.reusable table force name fingerprint = none ∧ entry.fingerprint = fingerprint ∧
      m.allocated ≤ entry.identity ∧
      entry.identity < m'.allocated ∧ m'.home entry.identity = (table, name))

variable {table : String} {force : List String}

theorem Renewed.extend {m'' : Manager} {name fingerprint : String} {entry : Entry}
    (h : Renewed m m' table force name fingerprint entry) (h' : Extends m' m'') :
    Renewed m m'' table force name fingerprint entry := by
  obtain hold | ⟨hnone, hfingerprint, hge, hlt, hhome⟩ := h
  · exact .inl hold
  · exact .inr ⟨hnone, hfingerprint, hge, Nat.lt_of_lt_of_le hlt h'.allocated,
      (h'.home _ hlt).trans hhome⟩

structure Preparing (m : Manager) (table : String) (force : List String)
    (seen : List (String × String)) (state : Manager × Dict String Entry) : Prop where
  frame : Extends m state.1
  users : ∀ user ∈ seen, ∃ entry, state.2.get? user.1 = some entry ∧
    Renewed m state.1 table force user.1 user.2 entry
  only : ∀ name entry, state.2.get? name = some entry → name ∈ seen.map Prod.fst

theorem Preparing.step {seen : List (String × String)} {state : Manager × Dict String Entry}
    {user : String × String} (h : Preparing m table force seen state)
    (hnew : user.1 ∉ seen.map Prod.fst) :
    Preparing m table force (seen ++ [user]) (prepareUser table force state user) := by
  obtain ⟨m', entry, heq, hextends, hrenewed⟩ : ∃ m' entry, prepareUser table force state user =
      (m', state.2.set user.1 entry) ∧ Extends state.1 m' ∧
      Renewed m m' table force user.1 user.2 entry := by
    unfold prepareUser
    have hreusable := reusable_congr h.frame.tables table force user.1 user.2
    split
    next old hold => exact ⟨_, _, rfl, .refl _, .inl (hreusable ▸ hold)⟩
    next hnone =>
      refine ⟨_, _, rfl, newIdentity_extends _ _ _,
        .inr ⟨hreusable ▸ hnone, rfl, h.frame.allocated, ?_, ?_⟩⟩
      · exact Nat.lt_succ_self _
      · exact Function.update_self _ _ _
  rw [heq]
  refine ⟨h.frame.trans hextends, fun other hother => ?_, fun name entry' hentry => ?_⟩
  · obtain hother | hother := List.mem_append.mp hother
    · obtain ⟨entry', hentry', hrenewed'⟩ := h.users other hother
      have hne : other.1 ≠ user.1 := fun heq => hnew (heq ▸ List.mem_map_of_mem hother)
      exact ⟨entry', by rw [Dict.get?_set, if_neg hne, hentry'], hrenewed'.extend hextends⟩
    · rw [List.mem_singleton.mp hother]
      exact ⟨entry, by rw [Dict.get?_set, if_pos rfl], hrenewed⟩
  · rw [Dict.get?_set] at hentry
    rw [List.map_append, List.mem_append]
    split at hentry
    next hname => exact .inr (by simp [hname])
    next => exact .inl (h.only name entry' hentry)

theorem prepare_spec (m : Manager) (table : String) (fingerprints : Dict String String)
    (force : List String) :
    Preparing m table force fingerprints.entries
      ((m.prepare table fingerprints force).1, (m.prepare table fingerprints force).2.next) := by
  refine foldl_seen (motive := Preparing m table force) ⟨.refl m, nofun, nofun⟩
    (fun seen user rest state hsplit h => ?_)
  refine h.step (fun hmem => ?_)
  have hnodup := fingerprints.nodup
  rw [hsplit, List.map_append, List.nodup_append] at hnodup
  exact hnodup.2.2 _ hmem _ (by simp) rfl

variable {next : Dict String Entry}

theorem Preparing.fingerprint {users : Dict String String}
    (h : Preparing m table force users.entries (m', next)) (name : String) :
    (next.get? name).map Entry.fingerprint = users.get? name := by
  cases huser : users.get? name with
  | none =>
    cases hentry : next.get? name with
    | none => rfl
    | some entry =>
      obtain ⟨fingerprint, hget⟩ := Dict.mem_keys_iff.mp (h.only name entry hentry)
      cases huser.symm.trans hget
  | some fingerprint =>
    obtain ⟨entry, hentry, hrenewed⟩ := h.users _ (Dict.mem_entries_iff.mpr huser)
    rw [hentry]
    obtain hold | ⟨-, hfingerprint, -⟩ := hrenewed
    · have hsame := (Option.filter_eq_some_iff.mp hold).2
      simp only [decide_eq_true_eq] at hsame
      simp [hsame.1]
    · simp [hfingerprint]

variable {token : Token}

theorem mem_retiredBy {users : Dict String Entry} : token ∈ retiredBy users next ↔
    ∃ name entry, users.get? name = some entry ∧ entry.identity = token ∧
      (next.get? name).map Entry.identity ≠ some token := by
  unfold retiredBy
  simp only [List.mem_filterMap, Option.ite_none_left_eq_some, Option.some.injEq]
  constructor
  · rintro ⟨⟨name, entry⟩, hmem, hne, rfl⟩
    exact ⟨name, entry, Dict.mem_entries_iff.mp hmem, rfl, hne⟩
  · rintro ⟨name, entry, hget, rfl, hne⟩
    exact ⟨(name, entry), Dict.mem_entries_iff.mpr hget, hne, rfl⟩

theorem mem_identities :
    token ∈ next.entries.map (·.2.identity) ↔ ∃ name entry, next.get? name = some entry ∧
    entry.identity = token := by
  simp only [List.mem_map, Prod.exists, Dict.mem_entries_iff]

theorem mem_sessionsOf {retired : List Token} {handle : Handle} :
    handle ∈ m.sessionsOf retired ↔ ∃ token ∈ retired, (token, handle) ∈ m.sessions := by
  simp [sessionsOf, and_assoc]

end Manager

end NodeManager.Userstate
