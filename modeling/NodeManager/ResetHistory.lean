import NodeManager.TrafficRuns

namespace NodeManager.ResetHistory

open Dictionary Runs TrafficCollection TrafficRecords TrafficResets TrafficRuns UsageRecords

structure Answer where
  userId : String
  cycleStart : Option CycleStart
  trafficReset : Bool
  deriving DecidableEq

def World.answer (w : World) : Step → Option Answer
  | .resetTraffic userId cycleStart policies now enforced =>
    match resetTraffic userId cycleStart policies now enforced w.store with
    | .ok (_, reset) => some ⟨userId, cycleStart, reset⟩
    | .error _ => none
  | .resetUserTraffic userId renewalKey now enforced =>
    match (resetUserTraffic true userId renewalKey now enforced w.store w.history).2 with
    | .ok reset => some ⟨userId, none, reset⟩
    | .error _ => none
  | _ => none

def resetVersion (w : World) (userId : String) : Nat := (w.record userId).sharedQuotaResetVersion

def cycleStart (w : World) (userId : String) : Int :=
  (w.record userId).lastTrafficCycleStart.getD (-1)

def Unreset (user : User) : Prop :=
  user.sharedQuotaResetVersion = 0 ∧ user.lastTrafficCycleStart.getD (-1) ≤ -1

instance (user : User) : Decidable (Unreset user) := inferInstanceAs (Decidable (_ ∧ _))

/-- A user whom a pass overlooks, or who is reset and not in the store, has no resets in the
archive. -/
def Remembers (w : World) (step : Step) : Prop :=
  match step with
  | .collect sample crash =>
    ∀ u ∈ w.history.usage.keys, w.overlooks (.collect sample crash) u → Unreset (w.record u)
  | .resetTraffic userId .. => userId ∉ w.store.users.keys → Unreset (w.record userId)
  | _ => True

instance (w : World) (step : Step) : Decidable (Remembers w step) := by
  rcases step <;> (unfold Remembers; infer_instance)

section Steps

variable {w : World} {step : Step} {user : User} {userId : String} {answer : Option Answer}
  {enforced : Except ResetError Unit}

theorem record_set (w : World) (userId : String) (user : User) (u : String) :
    World.record { w with store := { w.store with users := w.store.users.set userId user } } u =
      if u = userId then user else w.record u := by
  unfold World.record record
  rw [Dict.get?_set]
  split <;> rfl

def Later (user user' : User) : Prop :=
  user.sharedQuotaResetVersion ≤ user'.sharedQuotaResetVersion ∧
    user.lastTrafficCycleStart.getD (-1) ≤ user'.lastTrafficCycleStart.getD (-1)

theorem Unreset.later {user' : User} (h : Unreset user)
    (hcycle : -1 ≤ user'.lastTrafficCycleStart.getD (-1)) :
    Later user user' := by
  obtain ⟨hversion, hstart⟩ := h
  exact ⟨by omega, by omega⟩

theorem later_grown (user : User) (growth : Bytes) : Later user (grown user growth) :=
  ⟨le_refl _, le_refl _⟩

theorem found_or_unreset (h : userId ∉ w.store.users.keys → Unreset (w.record userId)) :
    (w.store.users.get? userId).getD {} = w.record userId ∨
      (w.store.users.get? userId).getD {} = {} ∧ Unreset (w.record userId) := by
  cases hget : w.store.users.get? userId with
  | some user =>
    refine .inl ?_
    rw [World.record, record, hget]
    rfl
  | none => exact .inr ⟨rfl, h (Dict.get?_eq_none.mp hget)⟩

theorem renewalRecord_eq (w : World) (userId : String) :
    renewalRecord true userId w.store w.history = w.record userId := rfl

theorem history_cycleStamp {cleared' : User} (hclear : cleared user = .ok cleared')
    (start : Option CycleStart) (now : Int) (hnew : alreadyReset user start = false) :
    (cycleStamp start now cleared').sharedQuotaResetVersion = user.sharedQuotaResetVersion + 1 ∧
      user.lastTrafficCycleStart.getD (-1) ≤
      (cycleStamp start now cleared').lastTrafficCycleStart.getD (-1) ∧
      ∀ c, start = some c → user.lastTrafficCycleStart.getD (-1) < c.key ∧
        (cycleStamp start now cleared').lastTrafficCycleStart.getD (-1) = c.key := by
  rw [cleared_ok hclear]
  cases start with
  | none => exact ⟨rfl, le_refl _, by simp⟩
  | some c =>
    have hlt : user.lastTrafficCycleStart.getD (-1) < c.key := by simpa [alreadyReset] using hnew
    refine ⟨rfl, hlt.le, ?_⟩
    rintro _ ⟨⟩
    exact ⟨hlt, rfl⟩

structure Advances (w w' : World) (answer : Option Answer) : Prop where
  later : ∀ u, Later (w.record u) (w'.record u)
  counted : ∀ a, answer = some a → a.trafficReset = true →
    resetVersion w a.userId < resetVersion w' a.userId
  begun : ∀ a c, answer = some a → a.trafficReset = true → a.cycleStart = some c →
    cycleStart w a.userId < c.key ∧ c.key ≤ cycleStart w' a.userId

theorem advances_of_records {w' : World} (h : ∀ u, Later (w.record u) (w'.record u))
    (hanswer : ∀ a, answer = some a → a.trafficReset = false) : Advances w w' answer := by
  refine ⟨h, fun a ha htrue => ?_, fun a c ha htrue => ?_⟩ <;>
  · cases (hanswer a ha).symm.trans htrue

theorem advances_set (hversion : resetVersion w userId < user.sharedQuotaResetVersion)
    (hcycle : cycleStart w userId ≤ user.lastTrafficCycleStart.getD (-1))
    (hanswer : ∀ a, answer = some a → a.userId = userId ∧ ∀ c, a.cycleStart = some c →
    cycleStart w userId < c.key ∧ c.key ≤ user.lastTrafficCycleStart.getD (-1)) :
    Advances w { w with
      store := { w.store with users := w.store.users.set userId user } } answer := by
  refine ⟨fun u => ?_, fun a ha _ => ?_, fun a c ha _ hc => ?_⟩
  · rw [record_set]
    split
    next hu => exact hu ▸ ⟨hversion.le, hcycle⟩
    · exact ⟨le_refl _, le_refl _⟩
  · rw [(hanswer a ha).1]
    unfold resetVersion
    rw [record_set, if_pos rfl]
    exact hversion
  · rw [(hanswer a ha).1]
    unfold cycleStart
    rw [record_set, if_pos rfl]
    exact (hanswer a ha).2 c hc

theorem advances_plain (hstep : step.isReset = false)
    (hremembers : ∀ u ∈ w.history.usage.keys, w.overlooks step u → Unreset (w.record u)) :
    Advances w (w.next step) none := by
  obtain ⟨new, -, hrecord⟩ := record_next w hstep
  refine advances_of_records (fun u => ?_) (by simp)
  obtain hsame | ⟨hoverlooks, hbegun⟩ := hrecord u
  · rw [hsame]
    exact later_grown _ _
  · rw [hbegun]
    exact (hremembers u (mem_of_overlooks hoverlooks).1 hoverlooks).later (le_refl _)

theorem advances_resetTraffic {start : Option CycleStart} {policies : List String} {now : Int}
    (h : userId ∉ w.store.users.keys → Unreset (w.record userId)) :
    Advances w (w.next (.resetTraffic userId start policies now enforced))
      (World.answer w (.resetTraffic userId start policies now enforced)) := by
  unfold World.next World.answer
  dsimp only
  cases hresult : resetTraffic userId start policies now enforced w.store with
  | error e => exact advances_of_records (fun u => ⟨le_refl _, le_refl _⟩) (by simp)
  | ok result =>
    obtain ⟨store, reset⟩ := result
    obtain ⟨-, rfl, rfl⟩ | ⟨hnew, rfl, user, hclear, rfl⟩ := resetTraffic_ok hresult
    · exact advances_of_records (fun u => ⟨le_refl _, le_refl _⟩) (by simp)
    obtain ⟨hversion, hlater, hbegun⟩ := history_cycleStamp hclear start now hnew
    obtain ⟨hversion', hlater'⟩ : Later (w.record userId)
      ((w.store.users.get? userId).getD {}) := by
      obtain hfound | ⟨hfresh, hunreset⟩ := found_or_unreset h
      · rw [hfound]
        exact ⟨le_refl _, le_refl _⟩
      · rw [hfresh]
        exact hunreset.later (le_refl _)
    refine advances_set ?_ (hlater'.trans hlater) ?_
    · rw [hversion]
      exact Nat.lt_succ_of_le hversion'
    rintro a ⟨⟩
    refine ⟨rfl, fun c hc => ?_⟩
    obtain ⟨hlt, heq⟩ := hbegun c hc
    exact ⟨hlater'.trans_lt hlt, heq.ge⟩

theorem advances_resetUserTraffic {renewalKey : Option String} {now : Int} :
    Advances w (w.next (.resetUserTraffic userId renewalKey now enforced))
      (World.answer w (.resetUserTraffic userId renewalKey now enforced)) := by
  unfold World.next World.answer
  dsimp only
  obtain ⟨hstore, hnot⟩ | ⟨user, -, hclear, hstore⟩ :=
    resetUserTraffic_cases true userId renewalKey now enforced w.store w.history
  · rw [hstore]
    refine advances_of_records (fun u => ⟨le_refl _, le_refl _⟩) (fun a ha => ?_)
    split at ha
    next reset hreset =>
      cases ha
      cases reset with
      | false => rfl
      | true => exact absurd hreset hnot
    · cases ha
  · rw [hstore]
    rw [renewalRecord_eq] at hclear
    have huser := cleared_ok hclear
    refine advances_set ?_ ?_ ?_
    · cases renewalKey <;> simp [renewalStamp, huser, resetVersion]
    · cases renewalKey <;> simp [renewalStamp, huser, cycleStart]
    intro a ha
    split at ha
    · cases ha
      exact ⟨rfl, by simp⟩
    · cases ha

theorem advances_next (h : Remembers w step) : Advances w (w.next step) (World.answer w step) := by
  cases step with
  | collect sample crash => exact advances_plain rfl h
  | archive activeIds crash => exact advances_plain rfl (fun u _ hf => by cases hf)
  | delete userId crash => exact advances_plain rfl (fun u _ hf => by cases hf)
  | acknowledge confirmed => exact advances_plain rfl (fun u _ hf => by cases hf)
  | resetTraffic userId start policies now enforced => exact advances_resetTraffic h
  | resetUserTraffic userId renewalKey now enforced => exact advances_resetUserTraffic

theorem later_run {steps : List Step} (h : Permitted World.next Remembers steps w) (u : String) :
    Later (w.record u) ((run World.next steps w).record u) := by
  induction steps generalizing w with
  | nil => exact ⟨le_refl _, le_refl _⟩
  | cons step steps ih =>
    obtain ⟨hversion, hcycle⟩ := (advances_next h.1).later u
    obtain ⟨hversion', hcycle'⟩ := ih h.2
    exact ⟨hversion.trans hversion', hcycle.trans hcycle'⟩

end Steps

/-- From any state of a run on: the resets on record only grow, an acknowledged reset counts, and
the start of a cycle is reset once. -/
theorem reset_history_forward (w : World) (first : List Step) (step : Step) (rest : List Step)
    (h : Permitted World.next Remembers (first ++ step :: rest) w) :
    let v := run World.next first w
    let v' := v.next step
    (∀ u, resetVersion v u ≤ resetVersion v' u ∧ cycleStart v u ≤ cycleStart v' u) ∧
    (∀ a, World.answer v step = some a → a.trafficReset = true →
      resetVersion v a.userId < resetVersion v' a.userId) ∧
    ∀ a c middle again later, World.answer v step = some a → a.trafficReset = true →
    a.cycleStart = some c →
      rest = middle ++ again :: later →
      ∀ b, World.answer (run World.next middle v') again = some b →
        b.userId = a.userId → b.cycleStart = some c → b.trafficReset = false := by
  intro v v'
  obtain ⟨-, hstep, hrest⟩ := permitted_append h
  have hadvances : Advances v v' (World.answer v step) := advances_next hstep
  refine ⟨hadvances.later, hadvances.counted, ?_⟩
  rintro a c middle again later ha htrue hc rfl b hb hu hbc
  obtain ⟨hmiddle, hagain, -⟩ := permitted_append hrest
  by_contra hreset
  have hnow := (hadvances.begun a c ha htrue hc).2
  have hkept : cycleStart v' a.userId ≤ cycleStart (run World.next middle v') a.userId :=
    (later_run hmiddle a.userId).2
  have hthen : cycleStart (run World.next middle v') b.userId < c.key :=
    ((advances_next hagain).begun b c hb (by simpa using hreset) hbc).1
  rw [hu] at hthen
  omega

section Examples

def resetStore : TrafficStore :=
  { users := Dict.empty.set "bob" { upload := 100 }, collected := true, counters := none,
    connections := Dict.empty }

def cycleOne : Step := .resetTraffic "bob" (some ⟨true, 5000, 5⟩) ["bob"] 9000 (.ok ())

/-- The cycle begins, the user is deleted and renewed, and the same cycle is asked for again. -/
theorem renewed_user_keeps_resets :
    let w : World := { store := resetStore, history := {} }
    let v := w.next cycleOne
    (∀ u, resetVersion w u ≤ resetVersion v u ∧ cycleStart w u ≤ cycleStart v u) ∧
    (∀ a, World.answer w cycleOne = some a → a.trafficReset = true →
      resetVersion w a.userId < resetVersion v a.userId) ∧
    ∀ a c middle again later, World.answer w cycleOne = some a → a.trafficReset = true →
    a.cycleStart = some c →
      [.delete "bob" false, .resetUserTraffic "bob" (some "2026-01-01") 9500 (.ok ()), cycleOne] =
        middle ++ again :: later → ∀ b, World.answer (run World.next middle v) again = some b →
        b.userId = a.userId → b.cycleStart = some c → b.trafficReset = false :=
  reset_history_forward { store := resetStore, history := {} } [] cycleOne
    [.delete "bob" false, .resetUserTraffic "bob" (some "2026-01-01") 9500 (.ok ()), cycleOne]
    (by decide +kernel)

/-- A deleted user that is made again is reset as if nothing had been: the version falls back to
one, and the acknowledged cycle is reset again. -/
theorem recreated_user_reset_again :
    let v := run World.next [cycleOne, .resetTraffic "bob" none ["bob"] 9200 (.ok ()),
      .delete "bob" false] { store := resetStore, history := {} }
    World.answer { store := resetStore, history := {} } cycleOne =
    some ⟨"bob", some ⟨true, 5000, 5⟩, true⟩ ∧
      resetVersion v "bob" = 2 ∧ World.answer v cycleOne =
      some ⟨"bob", some ⟨true, 5000, 5⟩, true⟩ ∧
      resetVersion (v.next cycleOne) "bob" = 1 := by
  decide +kernel

end Examples

end NodeManager.ResetHistory
