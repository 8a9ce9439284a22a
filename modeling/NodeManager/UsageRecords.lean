import NodeManager.CounterPostings
import NodeManager.TrafficCollection

namespace NodeManager.UsageRecords

open CounterPostings Dictionary Outcomes RuntimeCounters TrafficCollection TrafficRecords

/-- The record of a user, in the store or, when it is not there, in the archive. -/
def record (users usage : Dict String User) (userId : String) : User :=
  ((users.get? userId).or (usage.get? userId)).getD {}

def grown (user : User) (growth : Bytes) : User := user.withBytes (user.bytes + growth)

@[simp] theorem grown_zero (user : User) : grown user 0 = user := rfl

@[simp] theorem bytes_grown (user : User) (growth : Bytes) :
    (grown user growth).bytes = user.bytes + growth := rfl

theorem grown_grown (user : User) (first second : Bytes) :
    grown (grown user first) second = grown user (second + first) := by
  simp only [grown, User.bytes_withBytes, add_comm second, add_assoc]
  rfl

section Postings

variable {pass : Pass} {s s' : Progress} {users users' users'' : Dict String User}
  {postings : List Posting}

def Credited (users users' : Dict String User) (postings : List Posting) : Prop :=
  ∀ u, users'.get? u = if u ∈ users.keys ∨ ∃ q ∈ postings, q.owner = some u then
    some (grown ((users.get? u).getD {}) (credits postings u)) else none

theorem credits_of_no_owner {u : String} (h : ∀ q ∈ postings, q.owner ≠ some u) :
    credits postings u = 0 := by
  have hnil : postings.filter (fun q => q.owner = some u) = [] := by
    simpa [List.filter_eq_nil_iff] using h
  rw [credits, hnil]
  rfl

theorem credited_nil (users : Dict String User) : Credited users users [] := by
  intro u
  cases h : users.get? u with
  | none => simp [Dict.get?_eq_none.mp h]
  | some user =>
    rw [if_pos (.inl (Dict.mem_keys_iff.mpr ⟨user, h⟩)), credits_of_no_owner (by simp)]
    rfl

theorem Credited.getD (h : Credited users users' postings) (u : String) :
    (users'.get? u).getD {} = grown ((users.get? u).getD {}) (credits postings u) := by
  rw [h u]
  split
  · rfl
  next hnot =>
    obtain ⟨hkey, howner⟩ := not_or.mp hnot
    rw [credits_of_no_owner (fun q hq heq => howner ⟨q, hq, heq⟩), Dict.get?_eq_none.mpr hkey]
    rfl

theorem Credited.cons (h : Credited users users' postings) {q : Posting}
    (hq : credit users' q.owner q.growth = .ok users'') :
    Credited users users'' (q :: postings) := by
  intro u
  rw [credits_cons]
  unfold credit at hq
  split at hq
  next howner =>
    cases hq
    simp [h u, howner]
  next name howner =>
    dsimp only at hq
    split at hq
    · cases hq
    cases hq
    rw [Dict.get?_set, howner]
    by_cases hu : u = name
    · subst hu
      rw [if_pos rfl, if_pos (.inr ⟨q, List.mem_cons_self, howner⟩),
        if_pos rfl, ← grown_grown, ← h.getD u]
      rfl
    · have hne : q.owner ≠ some u := by simp [howner, Ne.symm hu]
      simp [h u, hu, Ne.symm hu, hne]

structure Rowed (users : Dict String User) (pass : Pass) (s : Progress) : Prop where
  credited : Credited users s.users s.postings
  held : ∀ q ∈ s.postings, (s.rows.get? q.key).map Baseline.userId = some q.owner ∧ q.key ∈ s.seen
  ids : ∀ key ∈ s.seen, key.id = "" ↔ pass.version = .one

theorem Rowed.applyRow (hs : Rowed users pass s) {row : Row}
    (hid : row.key.id = "" ↔ pass.version = .one) (h : pass.applyRow s row = .ok s') :
    Rowed users pass s' := by
  obtain ⟨q, hq⟩ := applyRow_ok h
  -- a baseline that is taken over is one without an id, so not one of those seen
  have hkept : ∀ key ∈ s.seen, s'.rows.get? key = s.rows.get? key := by
    intro key hkey
    have hne : key ≠ row.key := fun heq => hq.fresh (heq ▸ hkey)
    rw [hq.rows, Dict.get?_set, if_neg hne]
    cases hversion : pass.version with
    | one => rw [previous_one hversion]
    | two =>
      cases hget : s.rows.get? row.key with
      | some b => rw [previous_known hget]
      | none =>
        have hlegacy : key ≠ row.key.legacy := by
          rintro rfl
          have := (hs.ids row.key.legacy hkey).mp rfl
          simp [hversion] at this
        rw [previous_two hversion hget, Dict.get?_erase, if_neg hlegacy]
  refine ⟨?_, ?_, ?_⟩
  · rw [hq.postings]
    exact hs.credited.cons hq.users
  · rw [hq.postings, hq.seen]
    simp only [List.forall_mem_cons]
    constructor
    · rw [hq.key, hq.rows, Dict.get?_set, if_pos rfl]
      exact ⟨rfl, List.mem_cons_self⟩
    intro p hp
    obtain ⟨hrow, hseen⟩ := hs.held p hp
    rw [hkept p.key hseen]
    exact ⟨hrow, List.mem_cons_of_mem _ hseen⟩
  · rw [hq.seen]
    simp only [List.forall_mem_cons]
    exact ⟨hid, hs.ids⟩

structure Owned (names : List String) (s : Progress) : Prop where
  postings : ∀ q ∈ s.postings, ∀ u, q.owner = some u → u ∈ names
  rows : ∀ key b, s.rows.get? key = some b → ∀ u, b.userId = some u → u ∈ names

theorem rowOwner_cases {authMap historicalAliases : Dict String String} {name u : String}
    {previous : Option Baseline} (h : rowOwner authMap historicalAliases name previous =
      .ok (some u)) :
    knownOwner authMap historicalAliases name = some u ∨
    (∃ b, previous = some b ∧ b.userId = some u) ∨
      prefixOwner name = some u := by
  unfold rowOwner at h
  split at h
  next b =>
    dsimp only at h
    split at h
    · cases h
    obtain hfound | ⟨-, hbaseline⟩ := Option.or_eq_some_iff.mp (Except.ok.inj h)
    · exact .inl hfound
    · exact .inr (.inl ⟨b, rfl, hbaseline⟩)
  · obtain hfound | ⟨-, hstarts⟩ := Option.or_eq_some_iff.mp (Except.ok.inj h)
    · exact .inl hfound
    · exact .inr (.inr hstarts)

theorem previous_sub {rows : Dict CounterKey Baseline} {key k : CounterKey} {b : Baseline} :
    ((pass.previous rows key).1 = some b → ∃ k, rows.get? k = some b) ∧
      ((pass.previous rows key).2.get? k = some b → rows.get? k = some b) := by
  cases hget : rows.get? key with
  | some b' =>
    rw [previous_known hget]
    exact ⟨fun h => ⟨key, hget.trans h⟩, id⟩
  | none =>
    cases hversion : pass.version with
    | one =>
      rw [previous_one hversion]
      exact ⟨fun h => ⟨key, h⟩, id⟩
    | two =>
      rw [previous_two hversion hget]
      refine ⟨fun h => ⟨_, h⟩, fun h => ?_⟩
      rw [Dict.get?_erase] at h
      split at h
      · cases h
      · exact h

theorem Owned.applyRow {names : List String} (hs : Owned names s) {row : Row}
    (hknown : ∀ u, knownOwner pass.authMap pass.historicalAliases row.key.user = some u → u ∈ names)
    (hstarts : ∀ u, prefixOwner row.key.user = some u → u ∈ names)
    (h : pass.applyRow s row = .ok s') :
    Owned names s' := by
  obtain ⟨q, hq⟩ := applyRow_ok h
  have howner : ∀ u, q.owner = some u → u ∈ names := by
    intro u hu
    obtain hfound | ⟨b, hb, hbu⟩ | hname := rowOwner_cases (hu ▸ hq.owner)
    · exact hknown u hfound
    · obtain ⟨k, hk⟩ := (@previous_sub pass s.rows row.key row.key b).1 hb
      exact hs.rows k b hk u hbu
    · exact hstarts u hname
  refine ⟨?_, ?_⟩
  · rw [hq.postings]
    exact List.forall_mem_cons.mpr ⟨howner, hs.postings⟩
  · intro key b hget
    rw [hq.rows, Dict.get?_set] at hget
    split at hget
    · cases hget
      exact howner
    · exact hs.rows key b (previous_sub.2 hget)

end Postings

section Passes

variable {store store' : Store} {c : Counters} {snapshot : Snapshot}
  {authMap historicalAliases : Dict String String} {new : List Posting}
  {retiredEpochs : List String}

structure Counted (store store' : Store) (new : List Posting) : Prop where
  credited : Credited store.users store'.users new
  counters : ∃ c, store'.counters = some c ∧
    ∀ q ∈ new, (c.rows.get? q.key).map Baseline.userId = some q.owner
  collected : store'.collected = store.collected

theorem counted_of_applyRows (h : applyRows store c snapshot authMap historicalAliases =
    .ok (store', new)) :
    Counted store store' new := by
  obtain ⟨s, hfold, h⟩ := bind_eq_ok h
  obtain ⟨_, _, h⟩ := bind_eq_ok h
  cases h
  let pass : Pass := ⟨snapshot.instanceId, snapshot.counterVersion, migrates store, authMap,
    historicalAliases⟩
  have hrowed := foldlM_ok (motive := fun _ t => Rowed store.users pass t)
    (fun _ t row t' hmem ht hrow => ht.applyRow (snapshot.ids row hmem) hrow)
    ⟨credited_nil store.users, by simp, by simp⟩ hfold
  exact ⟨hrowed.credited, ⟨_, rfl, fun q hq => (hrowed.held q hq).1⟩, rfl⟩

theorem counted_of_applyCounters
    (h : (applyCounters store retiredEpochs snapshot authMap historicalAliases).1 =
      .ok (store', new)) :
    Counted store store' new := by
  unfold applyCounters at h
  split at h
  · cases h
  split at h
  · exact counted_of_applyRows h
  · exact counted_of_applyRows h

def baselineOwners (counters : Option Counters) (instanceId : String) : List String :=
  (counters.filter (·.instanceId = instanceId)).elim []
    (fun c => c.rows.entries.filterMap (fun e => e.2.userId))

theorem mem_baselineOwners {key : CounterKey} {b : Baseline} {u : String}
    (hc : currentCounters store.counters retiredEpochs snapshot = .ok c)
    (hb : c.rows.get? key = some b) (hu : b.userId = some u) :
    u ∈ baselineOwners store.counters snapshot.instanceId := by
  have hmem : (key, b) ∈ c.rows.entries := Dict.mem_entries_iff.mpr hb
  unfold currentCounters at hc
  split at hc
  · cases hc
    simp at hb
  next c₀ hsome =>
    split at hc
    next hsame =>
      cases hc
      rw [baselineOwners, hsome, Option.filter_some, if_pos (decide_eq_true hsame.symm)]
      exact List.mem_filterMap.mpr ⟨(key, b), hmem, hu⟩
    · split at hc
      · cases hc
      · cases hc
        simp at hb

/-- The owners of the rows of a snapshot, whether they are known, go by the name, or have a
baseline. -/
def rowOwners (counters : Option Counters) (snapshot : Snapshot)
    (authMap historicalAliases : Dict String String) :
    List String :=
  snapshot.users.filterMap (fun row => knownOwner authMap historicalAliases row.key.user) ++
    snapshot.users.filterMap (fun row => prefixOwner row.key.user) ++
    baselineOwners counters snapshot.instanceId

theorem owners_of_applyRows (hc : ∀ key b, c.rows.get? key = some b → ∀ u, b.userId = some u →
      u ∈ baselineOwners store.counters snapshot.instanceId)
    (h : applyRows store c snapshot authMap historicalAliases = .ok (store', new)) :
    ∀ q ∈ new, ∀ u, q.owner = some u →
    u ∈ rowOwners store.counters snapshot authMap historicalAliases := by
  obtain ⟨s, hfold, h⟩ := bind_eq_ok h
  obtain ⟨_, _, h⟩ := bind_eq_ok h
  cases h
  refine (foldlM_ok (motive := fun _ t =>
    Owned (rowOwners store.counters snapshot authMap historicalAliases) t)
    (fun _ t row t' hmem ht hrow => ht.applyRow ?_ ?_ hrow) ⟨by simp, ?_⟩ hfold).postings
  · intro u hu
    exact List.mem_append_left _ (List.mem_append_left _ (List.mem_filterMap.mpr ⟨row, hmem, hu⟩))
  · intro u hu
    exact List.mem_append_left _ (List.mem_append_right _ (List.mem_filterMap.mpr ⟨row, hmem, hu⟩))
  · intro key b hb u hu
    exact List.mem_append_right _ (hc key b hb u hu)

theorem owners_of_applyCounters
    (h : (applyCounters store retiredEpochs snapshot authMap historicalAliases).1 =
      .ok (store', new)) :
    ∀ q ∈ new, ∀ u, q.owner = some u →
    u ∈ rowOwners store.counters snapshot authMap historicalAliases := by
  unfold applyCounters at h
  split at h
  · cases h
  next c hc =>
    split at h
    · exact owners_of_applyRows (c := { c with retiredInstances := [] })
        (fun _ _ hb _ => mem_baselineOwners hc hb) h
    · exact owners_of_applyRows (fun _ _ hb _ => mem_baselineOwners hc hb) h

end Passes

section Tables

variable (usage users : Dict String User) (u : String)

theorem get?_loadUsage (userIds : List String) :
    (loadUsage usage userIds users).get? u =
    (users.get? u).or (if u ∈ userIds then usage.get? u else none) := by
  unfold loadUsage
  induction userIds generalizing users with
  | nil => simp
  | cons v userIds ih =>
    rw [List.foldl_cons, ih]
    by_cases hv : u = v
    · subst hv
      cases hlive : users.get? u with
      | some user => simp [hlive]
      | none => cases hcold : usage.get? u <;> simp [hlive, Dict.get?_set]
    simp only [List.mem_cons, hv, false_or]
    congr 1
    split
    · rw [Dict.get?_set, if_neg hv]
    · rfl

theorem get?_withRecords (userIds : List String) :
    (withRecords users userIds).get? u =
    (users.get? u).or (if u ∈ userIds then some {} else none) := by
  unfold withRecords
  induction userIds generalizing users with
  | nil => simp
  | cons v userIds ih =>
    rw [List.foldl_cons, ih, Dict.get?_setDefault]
    by_cases hv : u = v
    · subst hv
      cases users.get? u <;> simp
    · simp [hv]

variable {usage users}

theorem get?_sampleConnections {authMap : Dict String String} {previous : Dict String Active}
    {connections : List Connection} {s : Sampled}
    (h : sampleConnections true authMap previous users connections = .ok s) :
    s.users.get? u = (users.get? u).or
    (if u ∈ s.active.entries.map (fun e => e.2.userId) then some {} else none) := by
  revert u
  refine foldlM_ok (motive := fun _ (t : Sampled) => ∀ u, t.users.get? u =
    (users.get? u).or (if u ∈ t.active.entries.map (fun e => e.2.userId) then some {} else none)) ?_
    (by simp [Dict.empty]) h
  intro _ t connection t' _ ht hstep u
  obtain ⟨_, rfl⟩ | ⟨userId, id, _, hadded⟩ := sampleConnection_ok hstep
  · exact ht u
  rw [hadded.active, Dict.entries_set_of_not_mem hadded.fresh, hadded.users, Dict.get?_set]
  simp only [List.map_append, List.mem_append, List.map_cons, List.map_nil,
    List.mem_singleton, if_true]
  by_cases hu : u = userId
  · subst hu
    rw [if_pos rfl, if_pos (.inr rfl), ht u]
    cases users.get? u with
    | some user => rfl
    | none => split <;> rfl
  · simp only [hu, or_false, if_false, ht u]

theorem users_sampleConnections {runtimeMode : Bool} {authMap : Dict String String}
    {previous : Dict String Active} {connections : List Connection} {s : Sampled}
    (h : sampleConnections runtimeMode authMap previous users connections = .ok s) :
    ∀ u ∈ s.active.entries.map (fun e => e.2.userId),
    u ∈ connections.filterMap (connectionUserId authMap) := by
  refine foldlM_ok (motive := fun _ (t : Sampled) =>
    ∀ u ∈ t.active.entries.map (fun e => e.2.userId),
    u ∈ connections.filterMap (connectionUserId authMap)) ?_ (by simp [Dict.empty]) h
  intro _ t connection t' hmem ht hstep
  obtain ⟨_, rfl⟩ | ⟨userId, id, hattributed, hadded⟩ := sampleConnection_ok hstep
  · exact ht
  rw [hadded.active, Dict.entries_set_of_not_mem hadded.fresh]
  simp only [List.map_append, List.mem_append, List.map_cons, List.map_nil, List.mem_singleton]
  rintro u (hu | rfl)
  · exact ht u hu
  · exact List.mem_filterMap.mpr ⟨connection, hmem,
      (Option.filter_eq_some_iff.mp hattributed.user).1⟩

theorem get?_archiveUsage (values : Dict String User) (history : History) :
    (archiveUsage values history).usage.get? u = (values.get? u).or (history.usage.get? u) := by
  have husage : (archiveUsage values history).usage =
      values.entries.foldl (fun d e => d.set e.1 (id e.2)) history.usage :=
    (List.foldl_hom History.usage (fun _ _ => rfl)).symm
  rw [husage, Dict.get?_foldl_set_entries, Option.map_id, id]

end Tables

section Collecting

variable {store : TrafficStore} {history : History} {sample : Sample} {postings : List Posting}
  {c : Collected} {retiredEpochs : List String} {u : String}

def Sample.connected (sample : Sample) : List String :=
  (sample.connections.getD []).filterMap (connectionUserId sample.authMap)

theorem collectConnections_ok (h : collectConnections sample store postings = .ok c) :
    ∃ made : List String,
      (∀ u, c.store.users.get? u = (store.users.get? u).or (if u ∈ made then some {} else none)) ∧
      (∀ u ∈ made, u ∈ c.activeIds ∨ u ∈ retained c.store) ∧
      (∀ u ∈ made, u ∈ sample.wanted ∨ u ∈ Sample.connected sample) ∧
      c.store.counters = store.counters ∧ c.postings = postings := by
  unfold collectConnections at h
  split at h
  · cases h
    exact ⟨[], by simp, by simp, by simp, rfl, rfl⟩
  next connections hconnections =>
    obtain ⟨s, hs, h⟩ := bind_eq_ok h
    cases h
    refine ⟨sample.policies ++ s.active.entries.map (fun e => e.2.userId), ?_, ?_, ?_, rfl, rfl⟩
    · intro u
      rw [get?_withRecords, get?_sampleConnections u hs]
      cases store.users.get? u with
      | some user => rfl
      | none => split <;> split <;> simp_all
    · intro u hu
      obtain hu | hu := List.mem_append.mp hu
      · exact .inl (List.mem_append_right _ hu)
      · exact .inr (List.mem_append_right _ hu)
    · intro u hu
      obtain hu | hu := List.mem_append.mp hu
      · refine .inl (List.mem_append_right _ ?_)
        rwa [hconnections, Option.isSome_some, if_pos rfl]
      · refine .inr ?_
        rw [Sample.connected, hconnections]
        exact users_sampleConnections hs u hu

/-- Whom a pass can have a record for that it did not load: owners of rows and users of
connections. -/
def named (store : TrafficStore) (sample : Sample) : List String :=
  rowOwners store.counters sample.native sample.authMap sample.aliases ++ Sample.connected sample

def loaded (store : TrafficStore) (history : History) (sample : Sample) : Dict String User :=
  loadUsage history.usage sample.wanted store.users

structure Collects (store : TrafficStore) (history : History) (sample : Sample)
    (c : Collected) : Prop where
  known : ∀ u user, (loaded store history sample).get? u = some user →
    c.store.users.get? u = some (grown user (credits c.postings u))
  unknown : ∀ u, (loaded store history sample).get? u = none →
    c.store.users.get? u = none ∧ credits c.postings u = 0 ∨
    c.store.users.get? u = some (grown {} (credits c.postings u))
  named : ∀ u ∈ c.store.users.keys,
    u ∈ (loaded store history sample).keys ∨ u ∈ sample.wanted ∨ u ∈ named store sample
  cold : ∀ u ∈ (cold c.store c.activeIds).keys,
    u ∈ (loaded store history sample).keys ∧ credits c.postings u = 0
  counters : c.store.counters.isSome

theorem collectRuntime_ok (h : collectRuntime store history sample = (.ok c, retiredEpochs)) :
    Collects store history sample c := by
  obtain ⟨hresult, -⟩ := Prod.mk.inj h
  split at hresult
  · cases hresult
  next applied new happlied =>
    have hcounted := counted_of_applyCounters happlied
    obtain ⟨made, husers, hmade, hfrom, hcounters, rfl⟩ := collectConnections_ok hresult
    obtain ⟨rows, hrows, hheld⟩ := hcounted.counters
    have hcredited : Credited (loaded store history sample) applied.users c.postings :=
      hcounted.credited
    have howner : ∀ u, (∃ q ∈ c.postings, q.owner = some u) → u ∈ retained c.store := by
      rintro u ⟨q, hq, hu⟩
      obtain ⟨b, hb, hbu⟩ := Option.map_eq_some_iff.mp (hheld q hq)
      refine List.mem_append_left _ ?_
      rw [hcounters, hrows, Option.map_some, Option.getD_some, List.mem_filterMap]
      exact ⟨(q.key, b), Dict.mem_entries_iff.mpr hb, hbu.trans hu⟩
    refine ⟨?_, ?_, ?_, ?_, by simp [hcounters, hrows]⟩
    · intro u user huser
      rw [husers u, hcredited u, if_pos (.inl (Dict.mem_keys_iff.mpr ⟨user, huser⟩)), huser]
      rfl
    · intro u hu
      rw [husers u, hcredited u, hu]
      split
      · exact .inr rfl
      next hnot =>
        have hzero := credits_of_no_owner (fun q hq heq => (not_or.mp hnot).2 ⟨q, hq, heq⟩)
        rw [hzero]
        split
        · exact .inr rfl
        · exact .inl ⟨rfl, rfl⟩
    · intro u hu
      obtain ⟨user, huser⟩ := Dict.mem_keys_iff.mp hu
      rw [husers u, hcredited u] at huser
      split at huser
      next hcase =>
        obtain hloaded | ⟨q, hq, hqu⟩ := hcase
        · exact .inl hloaded
        · exact .inr (.inr (List.mem_append_left _ (owners_of_applyCounters happlied q hq u hqu)))
      · split at huser
        next hu => exact .inr ((hfrom u hu).imp_right (List.mem_append_right _))
        · cases huser
    · intro u hu
      obtain ⟨user, huser⟩ := Dict.mem_keys_iff.mp hu
      rw [TrafficCollection.cold, Dict.get?_filterKeys] at huser
      split at huser
      next hcold =>
        obtain ⟨hactive, hretained⟩ := of_decide_eq_true hcold
        have hnone : ∀ q ∈ c.postings, q.owner ≠ some u :=
          fun q hq heq => hretained (howner u ⟨q, hq, heq⟩)
        refine ⟨?_, credits_of_no_owner hnone⟩
        by_contra hkey
        have hmem : u ∉ made := fun hm => (hmade u hm).elim hactive hretained
        rw [husers u, hcredited u, if_neg (by simpa [hkey] using hnone), if_neg hmem] at huser
        cases huser
      · cases huser

end Collecting

end NodeManager.UsageRecords
