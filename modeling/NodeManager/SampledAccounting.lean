import NodeManager.TrafficResets
import NodeManager.UsageRecords

namespace NodeManager.SampledAccounting

open Dictionary Outcomes Runs TrafficCollection TrafficRecords TrafficResets UsageRecords

structure Addition where
  connectionId : String
  userId : String
  growth : Bytes
  deriving DecidableEq

structure World where
  store : TrafficStore
  added : List Addition := []
  reported : List (String × Bytes) := []

inductive Step
  | collect (sample : Sample)
  | resetTraffic (userId : String) (cycleStart : Option CycleStart)
    (policies : List String) (now : Int) (enforced : Except ResetError Unit)
  | resetUserTraffic (userId : String) (renewalKey : Option String) (now : Int)
      (enforced : Except ResetError Unit)

def baseline (connections : Dict String Active) (id : String) : Bytes :=
  ((connections.get? id).map Active.bytes).getD 0

def additions (previous connections : Dict String Active) : List Addition :=
  connections.entries.map (fun e => ⟨e.1, e.2.userId, e.2.bytes - baseline previous e.1⟩)

def reports (sample : Sample) : List (String × Bytes) :=
  (sample.connections.getD []).filterMap (fun connection => connection.id.map (·, connection.bytes))

def World.collect (w : World) (sample : Sample) : World :=
  match sample.connections, collectSampled w.store sample with
  | some _, .ok store =>
    { w with
      store := store
      added := additions w.store.connections store.connections ++ w.added
      reported := reports sample ++ w.reported }
  | _, _ => w

def World.next (step : Step) (w : World) : World :=
  match step with
  | .collect sample => w.collect sample
  | .resetTraffic userId cycleStart policies now enforced =>
    match resetTraffic userId cycleStart policies now enforced w.store with
    | .ok (store, _) => { w with store := store }
    | .error _ => w
  | .resetUserTraffic userId renewalKey now enforced =>
    { w with store := (resetUserTraffic false userId renewalKey now enforced w.store {}).1 }

def addedFor (added : List Addition) (id : String) : Bytes :=
  ((added.filter (fun a => a.connectionId = id)).map Addition.growth).sum

def addedTo (added : List Addition) (userId : String) : Bytes :=
  ((added.filter (fun a => a.userId = userId)).map Addition.growth).sum

def Monotone (w : World) : Step → Prop
  | .collect sample => ∀ p ∈ reports sample, ∀ q ∈ w.reported, q.1 = p.1 → q.2 ≤ p.2
  | _ => True

/-- A connection that counts, and was counted before, still has its baseline: it was listed and
attributed in the last snapshot. -/
def Steady (w : World) : Step → Prop
  | .collect sample => ∀ connection ∈ sample.connections.getD [], ∀ id ∈ connection.id.toList,
    ((connectionUserId sample.authMap connection).filter (· ≠ "")).isSome → id ≠ "" →
      (∃ a ∈ w.added, a.connectionId = id ∧ a.growth ≠ 0) → id ∈ w.store.connections.keys
  | _ => True

section Passes

variable {authMap : Dict String String} {previous : Dict String Active} {users : Dict String User}
  {s : Sampled} {connections : List Connection}

theorem addedTo_append (later earlier : List Addition) (userId : String) :
    addedTo (later ++ earlier) userId = addedTo later userId + addedTo earlier userId := by
  simp [addedTo]

theorem addedFor_append (later earlier : List Addition) (id : String) :
    addedFor (later ++ earlier) id = addedFor later id + addedFor earlier id := by
  simp [addedFor]

theorem addedFor_additions (previous connections : Dict String Active) (id : String) :
    addedFor (additions previous connections) id =
      ((connections.get? id).map (fun a => a.bytes - baseline previous id)).getD 0 := by
  have hfilter : (additions previous connections).filter (fun a => a.connectionId = id) =
      (connections.entries.filter (fun e => e.1 = id)).map
        (fun e => ⟨e.1, e.2.userId, e.2.bytes - baseline previous e.1⟩) := by
    rw [additions, List.filter_map]
    rfl
  rw [addedFor, hfilter, Dict.filter_entries]
  cases connections.get? id <;> simp

/-- The users have what is added to them, and every baseline is the counter of a connection that
counts and was not below the baseline before. -/
structure Sampling (authMap : Dict String String) (previous : Dict String Active)
    (users : Dict String User) (connections : List Connection) (s : Sampled) : Prop where
  bytes : ∀ u, bytesOf s.users u = bytesOf users u + addedTo (additions previous s.active) u
  listed : ∀ id a, s.active.get? id = some a → baseline previous id ≤ a.bytes ∧
    ∃ connection ∈ connections, ∃ userId, Attributed authMap connection userId id ∧
    a.bytes = connection.bytes

theorem Sampling.sample {t t' : Sampled} {connection : Connection} {userId id : String}
    (ht : Sampling authMap previous users connections t) (hmem : connection ∈ connections)
    (hattributed : Attributed authMap connection userId id)
    (hadded : Added false previous t connection userId id t') :
    Sampling authMap previous users connections t' := by
  constructor
  · intro u
    have hnew : addedTo [⟨id, userId, connection.bytes - baseline previous id⟩] u =
        if u = userId then connection.bytes - baseline previous id else 0 := by
      by_cases hu : u = userId
      · simp [addedTo, hu]
      · simp [addedTo, hu, Ne.symm hu]
    rw [hadded.active, additions, Dict.entries_set_of_not_mem hadded.fresh, List.map_append,
      addedTo_append, ← add_assoc, hadded.users, bytesOf_set]
    change _ = bytesOf users u + addedTo (additions previous t.active) u +
      addedTo [⟨id, userId, connection.bytes - baseline previous id⟩] u
    rw [hnew, ← ht.bytes u]
    split
    next hu =>
      subst hu
      rfl
    · simp
  · intro other a hget
    rw [hadded.active, Dict.get?_set] at hget
    split at hget
    next hother =>
      cases hget
      subst hother
      refine ⟨?_, connection, hmem, userId, hattributed, rfl⟩
      unfold baseline
      cases hp : previous.get? other with
      | none => simp
      | some p => exact (hadded.continued p hp).2
    · exact ht.listed other a hget

theorem sampling_of_ok (h : sampleConnections false authMap previous users connections = .ok s) :
    Sampling authMap previous users connections s := by
  refine foldlM_ok (motive := fun _ t => Sampling authMap previous users connections t)
    ?_ ⟨?_, ?_⟩ h
  · intro _ t connection t' hmem ht hstep
    obtain ⟨-, rfl⟩ | ⟨userId, id, hattributed, hadded⟩ := sampleConnection_ok hstep
    · exact ht
    · exact ht.sample hmem hattributed hadded
  · intro u
    simp [additions, addedTo, Dict.empty]
  · intro id a hget
    simp at hget

theorem bytesOf_withRecords (users : Dict String User) (userIds : List String) (u : String) :
    bytesOf (withRecords users userIds) u = bytesOf users u := by
  rw [bytesOf, bytesOf, get?_withRecords]
  cases users.get? u with
  | none => by_cases hu : u ∈ userIds <;> simp [hu]
  | some user => rfl

theorem collectSampled_ok {sample : Sample} {store store' : TrafficStore}
    (hlisted : sample.connections = some connections)
    (h : collectSampled store sample = .ok store') :
    Sampling sample.authMap store.connections store.users connections
    ⟨store'.users, store'.connections⟩ := by
  unfold collectSampled at h
  rw [hlisted] at h
  obtain ⟨_, _, h⟩ := bind_eq_ok h
  obtain ⟨s, hs, h⟩ := bind_eq_ok h
  cases h
  have hsampling := sampling_of_ok hs
  refine ⟨fun u => ?_, hsampling.listed⟩
  exact (bytesOf_withRecords s.users _ u).trans (hsampling.bytes u)

end Passes

section Runs

variable {w : World} {store : TrafficStore} {sample : Sample} {id : String}

/-- What was counted of a connection is at most its baseline and one of its reported counters. -/
structure Inv (w : World) : Prop where
  baselines : ∀ id a, w.store.connections.get? id = some a → addedFor w.added id ≤ a.bytes
  counters : ∀ id, addedFor w.added id = 0 ∨ ∃ b, (id, b) ∈ w.reported ∧ addedFor w.added id ≤ b

theorem addedFor_eq_zero {added : List Addition}
    (h : ∀ a ∈ added, a.connectionId = id → a.growth = 0) :
    addedFor added id = 0 := by
  rw [addedFor, List.sum_eq_zero]
  intro growth hgrowth
  obtain ⟨a, ha, rfl⟩ := List.mem_map.mp hgrowth
  rw [List.mem_filter, decide_eq_true_eq] at ha
  exact h a ha.1 ha.2

theorem Inv.reset (hw : Inv w) (hconnections : store.connections = w.store.connections) :
    Inv { w with store := store } := by
  refine ⟨fun id a hget => ?_, hw.counters⟩
  rw [hconnections] at hget
  exact hw.baselines id a hget

theorem collect_cases (w : World) (sample : Sample) :
    w.collect sample = w ∨ ∃ connections store, sample.connections = some connections ∧
      Sampling sample.authMap w.store.connections w.store.users connections
      ⟨store.users, store.connections⟩ ∧
      w.collect sample = ⟨store, additions w.store.connections store.connections ++ w.added,
        reports sample ++ w.reported⟩ := by
  unfold World.collect
  split
  next connections store hlisted hstore =>
    exact .inr ⟨connections, store, hlisted, collectSampled_ok hlisted hstore, rfl⟩
  · exact .inl rfl

theorem Inv.added_le (hw : Inv w) (hsteady : Steady w (.collect sample)) {connection : Connection}
    {userId : String} (hmem : connection ∈ sample.connections.getD [])
    (hattributed : Attributed sample.authMap connection userId id) :
    addedFor w.added id ≤ baseline w.store.connections id := by
  unfold baseline
  cases hget : w.store.connections.get? id with
  | some a => exact hw.baselines id a hget
  | none =>
    have hlost : ¬ ∃ a ∈ w.added, a.connectionId = id ∧ a.growth ≠ 0 := by
      intro hcounted
      have huser : ((connectionUserId sample.authMap connection).filter (· ≠ "")).isSome := by
        rw [hattributed.user]
        rfl
      have hid : id ∈ connection.id.toList := by simp [hattributed.listed]
      exact Dict.get?_eq_none.mp hget
        (hsteady connection hmem id hid huser hattributed.named hcounted)
    refine le_of_eq (addedFor_eq_zero fun a ha hid => ?_)
    by_contra hgrowth
    exact hlost ⟨a, ha, hid, hgrowth⟩

theorem Inv.collect (hw : Inv w) (hsteady : Steady w (.collect sample)) :
    Inv (w.collect sample) := by
  obtain heq | ⟨connections, store, hlisted, hsampling, heq⟩ := collect_cases w sample
  · rwa [heq]
  rw [heq]
  -- the growth over the baseline and what was counted below it make no more than the counter
  have hbound : ∀ id a, store.connections.get? id = some a →
      addedFor (additions w.store.connections store.connections ++ w.added) id ≤ a.bytes ∧
        (id, a.bytes) ∈ reports sample := by
    intro id a hget
    obtain ⟨hle, connection, hmem, userId, hattributed, hbytes⟩ := hsampling.listed id a hget
    constructor
    · calc addedFor (additions w.store.connections store.connections ++ w.added) id
          = (a.bytes - baseline w.store.connections id) + addedFor w.added id := by
            rw [addedFor_append, addedFor_additions, hget]
            rfl
        _ ≤ (a.bytes - baseline w.store.connections id) + baseline w.store.connections id :=
            add_le_add_right (hw.added_le hsteady (by rwa [hlisted]) hattributed) _
        _ = a.bytes := tsub_add_cancel_of_le hle
    · rw [reports, List.mem_filterMap]
      exact ⟨connection, by rwa [hlisted], by simp [hattributed.listed, hbytes]⟩
  constructor
  · exact fun id a hget => (hbound id a hget).1
  intro id
  cases hget : store.connections.get? id with
  | some a =>
    obtain ⟨hle, hmem⟩ := hbound id a hget
    exact .inr ⟨a.bytes, List.mem_append_left _ hmem, hle⟩
  | none =>
    have hsame : addedFor (additions w.store.connections store.connections ++ w.added) id =
        addedFor w.added id := by
      simp [addedFor_append, addedFor_additions, hget]
    obtain hzero | ⟨b, hmem, hle⟩ := hw.counters id
    · exact .inl (hsame.trans hzero)
    · exact .inr ⟨b, List.mem_append_right _ hmem, hsame.trans_le hle⟩

theorem Inv.next (hw : Inv w) {step : Step} (hsteady : Steady w step) : Inv (w.next step) := by
  cases step with
  | collect sample => exact hw.collect hsteady
  | resetTraffic userId cycleStart policies now enforced =>
    unfold World.next
    dsimp only
    split
    next store reset hreset =>
      apply hw.reset
      obtain ⟨-, rfl, -⟩ | ⟨-, -, user, -, rfl⟩ := resetTraffic_ok hreset <;> rfl
    · exact hw
  | resetUserTraffic userId renewalKey now enforced =>
    apply hw.reset
    obtain ⟨heq, -⟩ | ⟨user, -, -, heq⟩ :=
      resetUserTraffic_cases false userId renewalKey now enforced w.store {} <;>
      rw [heq]

instance (w : World) (step : Step) : Decidable (Monotone w step) := by
  rcases step <;> (unfold Monotone; infer_instance)

instance (w : World) (step : Step) : Decidable (Steady w step) := by
  rcases step <;> (unfold Steady; infer_instance)

/-- In a run where no connection loses its baseline and is counted again, every pass adds to the
users what it adds for the connections, never more for one than a counter reported for it. -/
theorem sampled_counts_once (store : TrafficStore) (steps : List Step)
    (hsteps : Permitted World.next Steady steps { store := store }) :
    (∀ id, addedFor (run World.next steps { store := store }).added id = 0 ∨
      ∃ b, (id, b) ∈ (run World.next steps { store := store }).reported ∧
        addedFor (run World.next steps { store := store }).added id ≤ b) ∧
    ∀ sample, ∃ new, ((run World.next steps { store := store }).collect sample).added =
        new ++ (run World.next steps { store := store }).added ∧
      ∀ u, bytesOf ((run World.next steps { store := store }).collect sample).store.users u =
        bytesOf (run World.next steps { store := store }).store.users u + addedTo new u := by
  constructor
  · have hinit : Inv { store := store } := ⟨fun id a _ => by simp [addedFor], fun id => .inl rfl⟩
    exact (run_invariant (fun w step hw hstep => hw.next hstep) hinit hsteps).counters
  · intro sample
    obtain heq | ⟨connections, store', hlisted, hsampling, heq⟩ :=
      collect_cases (run World.next steps { store := store }) sample
    · exact ⟨[], by rw [heq, List.nil_append], fun u => by simp [heq, addedTo]⟩
    · exact ⟨_, by rw [heq], fun u => by rw [heq]; exact hsampling.bytes u⟩

def snapshotOf (authMap : Dict String String) (upload : Nat) : Sample where
  native := ⟨"boot", .one, [], by simp⟩
  connections := some [⟨some "c1", [], ["bob-socks"], upload, 0⟩]
  authMap := authMap
  aliases := Dict.empty
  policies := []

def bobSocks : Dict String String := Dict.empty.set "bob-socks" "bob"

def emptyStore : TrafficStore where
  users := Dict.empty
  counters := none
  collected := false
  connections := Dict.empty

theorem growing_connection_counts_once :
    ∃ b, ("c1", b) ∈ (run World.next
        [.collect (snapshotOf bobSocks 100), .resetUserTraffic "bob" none 0 (.ok ()),
          .collect (snapshotOf bobSocks 150)] { store := emptyStore }).reported ∧
      addedFor (run World.next
        [.collect (snapshotOf bobSocks 100), .resetUserTraffic "bob" none 0 (.ok ()),
          .collect (snapshotOf bobSocks 150)] { store := emptyStore }).added "c1" ≤ b := by
  refine ((sampled_counts_once emptyStore [.collect (snapshotOf bobSocks 100),
    .resetUserTraffic "bob" none 0 (.ok ()), .collect (snapshotOf bobSocks 150)] (by
    decide +kernel)).1 "c1").resolve_left ?_
  decide +kernel

/-- A connection that could not be attributed for one pass is counted once more. -/
theorem unattributed_pass_counts_again :
    Permitted World.next Monotone
        [.collect (snapshotOf bobSocks 100), .collect (snapshotOf Dict.empty 100),
          .collect (snapshotOf bobSocks 100)] { store := emptyStore } ∧
      addedFor (run World.next
        [.collect (snapshotOf bobSocks 100), .collect (snapshotOf Dict.empty 100),
          .collect (snapshotOf bobSocks 100)] { store := emptyStore }).added "c1" = (200, 0) ∧
      (∀ p ∈ (run World.next
        [.collect (snapshotOf bobSocks 100), .collect (snapshotOf Dict.empty 100),
          .collect (snapshotOf bobSocks 100)] { store := emptyStore }).reported,
        p = ("c1", 100, 0)) ∧
      bytesOf (run World.next
        [.collect (snapshotOf bobSocks 100), .collect (snapshotOf Dict.empty 100),
          .collect (snapshotOf bobSocks 100)] { store := emptyStore }).store.users "bob" =
        (200, 0) := by
  decide +kernel

end Runs

end NodeManager.SampledAccounting
