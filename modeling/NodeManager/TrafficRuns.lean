import NodeManager.CounterRuns
import NodeManager.TrafficResets
import NodeManager.UsageRecords

namespace NodeManager.TrafficRuns

open CounterPostings CounterRuns Dictionary RuntimeCounters TrafficCollection TrafficRecords
  TrafficResets UsageRecords

structure World where
  store : TrafficStore
  history : History
  posted : List Posting := []

inductive Step
  | collect (sample : Sample) (crash : Bool)
  | archive (activeIds : List String) (crash : Bool)
  | delete (userId : String) (crash : Bool)
  /-- The core has confirmed that it dropped some counters. -/
  | acknowledge (confirmed : List CounterKey)
  | resetTraffic (userId : String) (cycleStart : Option CycleStart)
    (policies : List String) (now : Int) (enforced : Except ResetError Unit)
  | resetUserTraffic (userId : String) (renewalKey : Option String) (now : Int)
      (enforced : Except ResetError Unit)

def World.written (w : World) (crash : Bool) (files : TrafficStore × History) : World :=
  { w with store := if crash then w.store else files.1, history := files.2 }

def World.collect (w : World) (sample : Sample) (crash : Bool) : World :=
  match collectRuntime w.store w.history sample with
  | (.error _, retiredEpochs) =>
    { w with history := { w.history with retiredEpochs := retiredEpochs } }
  | (.ok c, retiredEpochs) =>
    { w.written crash (archiveInactive c.store { w.history with
      retiredEpochs := retiredEpochs } c.activeIds) with
      posted := if crash then w.posted else c.postings ++ w.posted }

def World.next (step : Step) (w : World) : World :=
  match step with
  | .collect sample crash => w.collect sample crash
  | .archive activeIds crash => w.written crash (archiveInactive w.store w.history activeIds)
  | .delete userId crash => w.written crash (deleteUserTraffic userId w.store w.history)
  | .acknowledge confirmed =>
    let counters := w.store.counters.map fun c =>
      settle c (confirmed.filter (· ∈ c.retirementPending.keys))
    { w with store := { w.store with counters := counters } }
  | .resetTraffic userId cycleStart policies now enforced =>
    match resetTraffic userId cycleStart policies now enforced w.store with
    | .ok (store, _) => { w with store := store }
    | .error _ => w
  | .resetUserTraffic userId renewalKey now enforced =>
    { w with store := (resetUserTraffic true userId renewalKey now enforced w.store w.history).1 }

def World.record (w : World) (userId : String) : User :=
  UsageRecords.record w.store.users w.history.usage userId

/-- The pass names a user of the archive whom it does not load. -/
def Overlooks (store : TrafficStore) (history : History) (sample : Sample)
    (userId : String) : Prop :=
  userId ∉ store.users.keys ∧ userId ∈ history.usage.keys ∧ userId ∉ sample.wanted ∧
    userId ∈ named store sample

instance (store : TrafficStore) (history : History) (sample : Sample) (userId : String) :
    Decidable (Overlooks store history sample userId) :=
  inferInstanceAs (Decidable (_ ∧ _ ∧ _ ∧ _))

section Records

variable {store : TrafficStore} {history : History} {sample : Sample} {c : Collected}
  {retiredEpochs : List String} {activeIds : List String} {u : String}

theorem get?_loaded : (loaded store history sample).get? u =
    (store.users.get? u).or (if u ∈ sample.wanted then history.usage.get? u else none) :=
  get?_loadUsage history.usage store.users u sample.wanted

theorem record_collected (h : collectRuntime store history sample = (.ok c, retiredEpochs))
    (u : String) :
    UsageRecords.record c.store.users history.usage u =
        grown (UsageRecords.record store.users history.usage u) (credits c.postings u) ∨
      Overlooks store history sample u ∧
        UsageRecords.record c.store.users history.usage u = grown {} (credits c.postings u) := by
  have hc := collectRuntime_ok h
  unfold UsageRecords.record
  cases hloaded : (loaded store history sample).get? u with
  | some user =>
    have hrecord : (store.users.get? u).or (history.usage.get? u) = some user := by
      rw [get?_loaded] at hloaded
      split at hloaded
      · exact hloaded
      · rw [Option.or_none] at hloaded
        rw [hloaded, Option.some_or]
    refine .inl ?_
    rw [hc.known u user hloaded, hrecord]
    rfl
  | none =>
    have hnot := Dict.get?_eq_none.mp hloaded
    rw [get?_loaded, Option.or_eq_none_iff] at hloaded
    obtain ⟨hstore, hwanted⟩ := hloaded
    obtain ⟨hnone, hzero⟩ | hsome := hc.unknown u (by rw [get?_loaded, hstore, hwanted]; rfl)
    · refine .inl ?_
      rw [hnone, hzero, hstore]
      rfl
    rw [hsome, hstore]
    cases husage : history.usage.get? u with
    | none => exact .inl rfl
    | some user =>
      have hunwanted : u ∉ sample.wanted := by
        intro hin
        rw [if_pos hin, husage] at hwanted
        cases hwanted
      have hnamed := hc.named u (Dict.mem_keys_iff.mpr ⟨_, hsome⟩)
      exact .inr ⟨⟨Dict.get?_eq_none.mp hstore, Dict.mem_keys_iff.mpr ⟨user, husage⟩, hunwanted,
        (hnamed.resolve_left hnot).resolve_left hunwanted⟩, rfl⟩

theorem get?_cold : (cold store activeIds).get? u =
    if u ∉ activeIds ∧ u ∉ retained store then store.users.get? u else none := by
  rw [cold, Dict.get?_filterKeys]
  simp only [decide_eq_true_eq]

theorem record_archived (store : TrafficStore) (history : History) (activeIds : List String)
    (u : String) :
    UsageRecords.record (archiveInactive store history activeIds).1.users
      (archiveInactive store history activeIds).2.usage u =
      UsageRecords.record store.users history.usage u := by
  unfold UsageRecords.record archiveInactive
  rw [get?_archiveUsage, get?_cold, Dict.get?_filterKeys]
  by_cases hcold : u ∉ activeIds ∧ u ∉ retained store
  · simp only [hcold, not_false_eq_true, and_self, not_true_eq_false, decide_false,
      Bool.false_eq_true, if_false, if_true, Option.none_or]
  · simp only [hcold, not_false_eq_true, decide_true, if_true, if_false, Option.none_or]

theorem record_archived_only (store : TrafficStore) (history : History) (activeIds : List String)
    (u : String) :
    UsageRecords.record store.users (archiveInactive store history activeIds).2.usage u =
      UsageRecords.record store.users history.usage u := by
  unfold UsageRecords.record archiveInactive
  rw [get?_archiveUsage, get?_cold]
  split
  · cases store.users.get? u <;> rfl
  · rw [Option.none_or]

theorem record_crashed (h : collectRuntime store history sample = (.ok c, retiredEpochs))
    (archive : History) (husage : archive.usage = history.usage) (u : String) :
    UsageRecords.record store.users (archiveInactive c.store archive c.activeIds).2.usage u =
      UsageRecords.record store.users history.usage u := by
  have hc := collectRuntime_ok h
  unfold UsageRecords.record archiveInactive
  rw [get?_archiveUsage, husage]
  cases hcold : (cold c.store c.activeIds).get? u with
  | none => rw [Option.none_or]
  | some user =>
    obtain ⟨hloaded, hzero⟩ := hc.cold u (Dict.mem_keys_iff.mpr ⟨user, hcold⟩)
    obtain ⟨user', huser'⟩ := Dict.mem_keys_iff.mp hloaded
    have hsame : user = user' := by
      have hget := hc.known u user' huser'
      rw [hzero, grown_zero] at hget
      rw [get?_cold] at hcold
      split at hcold
      · exact Option.some.inj (hcold.symm.trans hget)
      · cases hcold
    cases hstore : store.users.get? u with
    | some live => rfl
    | none =>
      rw [get?_loaded, hstore] at huser'
      split at huser'
      · rw [huser', hsame]
        rfl
      · cases huser'

theorem record_deleted (userId : String) (store : TrafficStore) (history : History) (u : String) :
    UsageRecords.record (deleteUserTraffic userId store history).1.users
      (deleteUserTraffic userId store history).2.usage u =
      UsageRecords.record store.users history.usage u ∧
    UsageRecords.record store.users (deleteUserTraffic userId store history).2.usage u =
      UsageRecords.record store.users history.usage u := by
  have hhistory : (deleteUserTraffic userId store history).2.usage.get? u =
      (if u = userId then store.users.get? u else none).or (history.usage.get? u) := by
    unfold deleteUserTraffic
    split
    next user huser =>
      rw [get?_archiveUsage]
      congr 1
      by_cases hu : u = userId
      · subst hu
        simp [Dict.get?, ← huser]
      · have hb : (u == userId) = false := by simpa using hu
        simp [Dict.get?, List.lookup_cons, hb, hu]
    next hnone =>
      split
      next hu => rw [hu, hnone, Option.none_or]
      · rw [Option.none_or]
  have husers : (deleteUserTraffic userId store history).1.users.get? u =
      if u = userId then none else store.users.get? u := Dict.get?_erase store.users userId u
  unfold UsageRecords.record
  rw [hhistory, husers]
  by_cases hu : u = userId
  · simp only [hu, if_true, Option.none_or, true_and]
    cases store.users.get? userId <;> rfl
  · simp only [hu, if_false, Option.none_or, and_self]

end Records

section Steps

variable {w : World} {step : Step}

def Step.isReset : Step → Bool
  | .resetTraffic .. => true
  | .resetUserTraffic .. => true
  | _ => false

def World.overlooks (w : World) (step : Step) (userId : String) : Prop :=
  match step with
  | .collect sample false => Overlooks w.store w.history sample userId
  | _ => False

instance (w : World) (step : Step) (userId : String) : Decidable (w.overlooks step userId) := by
  unfold World.overlooks
  split <;> infer_instance

theorem mem_of_overlooks {u : String} (h : w.overlooks step u) :
    u ∈ w.history.usage.keys ∧ u ∉ w.store.users.keys := by
  unfold World.overlooks at h
  split at h
  · exact ⟨h.2.1, h.1⟩
  · cases h

theorem record_archived_step (w : World) (crash : Bool) (activeIds : List String) (u : String) :
    (w.written crash (archiveInactive w.store w.history activeIds)).record u = w.record u := by
  cases crash with
  | true => exact record_archived_only w.store w.history activeIds u
  | false => exact record_archived w.store w.history activeIds u

theorem record_next (w : World) (hstep : step.isReset = false) :
    ∃ new, (w.next step).posted = new ++ w.posted ∧ ∀ u,
      (w.next step).record u = grown (w.record u) (credits new u) ∨
        w.overlooks step u ∧ (w.next step).record u = grown {} (credits new u) := by
  cases step with
  | collect sample crash =>
    simp only [World.next, World.collect]
    split
    · exact ⟨[], rfl, fun u => .inl rfl⟩
    next c retiredEpochs hok =>
      cases crash with
      | true =>
        exact ⟨[], rfl, fun u => .inl
          (record_crashed hok { w.history with retiredEpochs := retiredEpochs } rfl u)⟩
      | false =>
        refine ⟨c.postings, rfl, fun u => ?_⟩
        have harchived := record_archived c.store { w.history with
          retiredEpochs := retiredEpochs } c.activeIds u
        exact (record_collected hok u).imp harchived.trans (And.imp_right harchived.trans)
  | archive activeIds crash =>
    exact ⟨[], rfl, fun u => .inl (record_archived_step w crash activeIds u)⟩
  | delete userId crash =>
    refine ⟨[], rfl, fun u => .inl ?_⟩
    cases crash with
    | true => exact (record_deleted userId w.store w.history u).2
    | false => exact (record_deleted userId w.store w.history u).1
  | acknowledge confirmed => exact ⟨[], rfl, fun u => .inl rfl⟩
  | resetTraffic => cases hstep
  | resetUserTraffic => cases hstep

end Steps

end NodeManager.TrafficRuns
