import NodeManager.TrafficCollection

namespace NodeManager.TrafficResets

open Dictionary Outcomes SharedQuota Singbox TrafficCollection TrafficRecords

inductive ResetError
  | invalidUserId
  | invalidCycleStart
  | userNotFound
  | enforcement (message : String)
  | quota (error : QuotaError)
  deriving DecidableEq, Repr

/-- The start of a billing cycle, in microseconds, with or without a time zone. Its `key` is
whatever `int(cycle_start.timestamp() * 1000)` gives, which rounds. -/
structure CycleStart where
  zoned : Bool
  micros : Int
  key : Int
  deriving DecidableEq, Repr

def cleared (user : User) : Except ResetError User :=
  match clearForReset user with
  | .ok user => .ok { user with upload := 0, download := 0 }
  | .error e => .error (.quota e)

def alreadyReset (user : User) (cycleStart : Option CycleStart) : Bool :=
  cycleStart.any (fun c => c.key ≤ user.lastTrafficCycleStart.getD (-1))

def cycleStamp (cycleStart : Option CycleStart) (now : Int) (user : User) : User :=
  match cycleStart with
  | some c => { user with lastTrafficCycleStart := some c.key, lastManualTrafficResetAt := some 0 }
  | none => { user with lastManualTrafficResetAt := some now }

def renewalStamp (renewalKey : Option String) (now : Int) (user : User) : User :=
  match renewalKey with
  | some key => { user with lastRenewalResetKey := some key }
  | none => { user with lastManualTrafficResetAt := some now }

/-- `reset_traffic`; `enforced` is what `sync_user_enforcements` does, the flag of the result
`trafficReset`. -/
def resetTraffic (userId : String) (cycleStart : Option CycleStart)
    (policies : List String) (now : Int) (enforced : Except ResetError Unit)
    (store : TrafficStore) : Except ResetError (TrafficStore × Bool) := do
  require (validUserId userId) .invalidUserId
  require (cycleStart.all (fun c => c.zoned && c.micros ≤ now)) .invalidCycleStart
  require (userId ∈ policies) .userNotFound
  let user := (store.users.get? userId).getD {}
  if alreadyReset user cycleStart then return (store, false)
  else
    enforced
    let user ← cleared user
    return ({ store with users := store.users.set userId (cycleStamp cycleStart now user) }, true)

def renewalRecord (runtimeMode : Bool) (userId : String) (store : TrafficStore)
    (history : History) : User :=
  ((store.users.get? userId).or
    (if runtimeMode || store.counters.isSome then history.usage.get? userId else none)).getD {}

def resetUserTraffic (runtimeMode : Bool) (userId : String) (renewalKey : Option String) (now : Int)
    (enforced : Except ResetError Unit) (store : TrafficStore) (history : History) :
    TrafficStore × Except ResetError Bool :=
  let user := renewalRecord runtimeMode userId store history
  if renewalKey.isSome ∧ user.lastRenewalResetKey = renewalKey then (store, .ok false)
  else
    match cleared user with
    | .error e => (store, .error e)
    | .ok user =>
      ({ store with users := store.users.set userId (renewalStamp renewalKey now user) },
        enforced.map fun _ => true)

section Specs

variable {user user' : User}

theorem cleared_ok (h : cleared user = .ok user') : user' = { user with
    upload := 0
    download := 0
    sharedQuotaRetiredSources := retire user
    sharedQuotaEvidence := Dict.empty
    replicatedTrafficOrigins := Dict.empty
    nativeAccountingVersion := some 2
    sharedQuotaResetVersion := user.sharedQuotaResetVersion + 1 } := by
  unfold cleared at h
  split at h
  next cleared hclear =>
    obtain ⟨_, _, hclear⟩ := bind_eq_ok hclear
    cases hclear
    exact (Except.ok.inj h).symm
  · cases h

variable {userId : String} {cycleStart : Option CycleStart} {policies : List String} {now : Int}
  {enforced : Except ResetError Unit} {store store' : TrafficStore} {reset : Bool}

theorem resetTraffic_ok (h : resetTraffic userId cycleStart policies now enforced store =
    .ok (store', reset)) :
    (alreadyReset ((store.users.get? userId).getD {}) cycleStart = true ∧ store' = store ∧
      reset = false) ∨
    (alreadyReset ((store.users.get? userId).getD {}) cycleStart = false ∧ reset = true ∧
      ∃ user, cleared ((store.users.get? userId).getD {}) = .ok user ∧
        store' = { store with
          users := store.users.set userId (cycleStamp cycleStart now user) }) := by
  obtain ⟨_, _, h⟩ := bind_eq_ok h
  obtain ⟨_, _, h⟩ := bind_eq_ok h
  obtain ⟨_, _, h⟩ := bind_eq_ok h
  dsimp only at h
  split at h
  next halready =>
    cases h
    exact .inl ⟨halready, rfl, rfl⟩
  next halready =>
    obtain ⟨_, _, h⟩ := bind_eq_ok h
    obtain ⟨user, huser, h⟩ := bind_eq_ok h
    cases h
    exact .inr ⟨by simpa using halready, rfl, user, huser, rfl⟩

theorem resetUserTraffic_cases (runtimeMode : Bool) (userId : String)
    (renewalKey : Option String) (now : Int) (enforced : Except ResetError Unit)
    (store : TrafficStore) (history : History) :
    (resetUserTraffic runtimeMode userId renewalKey now enforced store history).1 = store ∧
      (resetUserTraffic runtimeMode userId renewalKey now enforced store history).2 ≠ .ok true ∨
    ∃ user, ¬ (renewalKey.isSome ∧
      (renewalRecord runtimeMode userId store history).lastRenewalResetKey = renewalKey) ∧
      cleared (renewalRecord runtimeMode userId store history) = .ok user ∧
      (resetUserTraffic runtimeMode userId renewalKey now enforced store history).1 =
        { store with users := store.users.set userId (renewalStamp renewalKey now user) } := by
  unfold resetUserTraffic
  dsimp only
  split
  · exact .inl ⟨rfl, by simp⟩
  next hnew =>
    split
    · exact .inl ⟨rfl, by simp⟩
    next user huser => exact .inr ⟨user, hnew, huser, rfl⟩

end Specs

end NodeManager.TrafficResets
