import NodeManager.DictionarySums
import NodeManager.TrafficRuns

namespace NodeManager.UsageArchive

open CounterPostings Dictionary Runs RuntimeCounters TrafficCollection TrafficRecords TrafficRuns
  UsageRecords

section Sums

@[simp] theorem signed_zero : signed 0 = 0 := rfl

theorem signed_add (a b : Bytes) : signed (a + b) = signed a + signed b := by
  simp [signed]

def credited (postings : List Posting) : Bytes :=
  ((postings.filter (fun q => q.owner.isSome)).map Posting.growth).sum

theorem credits_support (postings : List Posting) :
    (fun u => signed (credits postings u)).HasFiniteSupport := by
  refine (List.finite_toSet (postings.filterMap Posting.owner)).subset ?_
  intro u hu
  by_contra hnone
  refine hu ?_
  have hzero : credits postings u = 0 :=
    credits_of_no_owner (fun q hq heq => hnone (List.mem_filterMap.mpr ⟨q, hq, heq⟩))
  simp [hzero]

theorem finsum_credits_single (q : Posting) :
    ∑ᶠ u, signed (credits [q] u) = signed (credited [q]) := by
  have hcredits : ∀ u, credits [q] u = if q.owner = some u then q.growth else 0 := by
    intro u
    rw [credits_cons, credits_of_no_owner (by simp), add_zero]
  simp only [hcredits]
  cases howner : q.owner with
  | none => simp [credited, howner]
  | some name =>
    rw [finsum_eq_single _ name (fun u hu => by simp [Ne.symm hu])]
    simp [credited, howner]

theorem credited_append (later earlier : List Posting) :
    credited (later ++ earlier) = credited later + credited earlier := by
  simp [credited]

theorem finsum_credits (postings : List Posting) :
    ∑ᶠ u, signed (credits postings u) = signed (credited postings) := by
  induction postings with
  | nil => simp [credits, credited]
  | cons q postings ih =>
    have hcons : q :: postings = [q] ++ postings := rfl
    simp only [hcons, credits_append, signed_add]
    rw [finsum_add_distrib (credits_support [q]) (credits_support postings), ih,
      finsum_credits_single, credited_append, signed_add]

end Sums

section Totals

variable {w : World} {store : TrafficStore} {history : History}

abbrev entry (users : Dict String User) : String → Int × Int :=
  users.valueAt (fun user => signed user.bytes)

theorem entry_eq (users : Dict String User) (u : String) :
    entry users u = signed (bytesOf users u) := by
  unfold entry Dict.valueAt bytesOf
  cases users.get? u <;> rfl

def Balanced (history : History) : Prop := history.totals = ∑ᶠ u, entry history.usage u

theorem Balanced.archiveUsage (h : Balanced history) (values : Dict String User) :
    Balanced (archiveUsage values history) := by
  apply foldl_invariant h
  intro history e _ h
  unfold Balanced
  rw [Dict.finsum_valueAt_set, ← h]
  exact congrArg (fun old => history.totals + (signed e.2.bytes - old))
    (entry_eq history.usage e.1).symm

structure Sound (store : TrafficStore) (history : History) : Prop where
  balanced : Balanced history
  early : store.counters = none → ∀ u ∉ store.users.keys, bytesOf history.usage u = 0

theorem bytes_record (users usage : Dict String User) (u : String) :
    signed (record users usage u).bytes = if u ∈ users.keys then entry users u
    else entry usage u := by
  unfold record entry Dict.valueAt
  cases hget : users.get? u with
  | none =>
    rw [if_neg (Dict.get?_eq_none.mp hget)]
    cases usage.get? u <;> rfl
  | some user =>
    rw [if_pos (Dict.mem_keys_iff.mpr ⟨user, hget⟩)]
    rfl

theorem support_record (users usage : Dict String User) :
    (fun u => signed (record users usage u).bytes).HasFiniteSupport := by
  refine ((Dict.hasFiniteSupport_valueAt users (fun user => signed user.bytes)).union
    (Dict.hasFiniteSupport_valueAt usage (fun user => signed user.bytes))).subset ?_
  intro u hu
  rw [Function.mem_support, bytes_record] at hu
  split at hu
  · exact .inl hu
  · exact .inr hu

theorem Sound.totals (h : Sound store history) :
    trafficTotals store history = ∑ᶠ u, signed (record store.users history.usage u).bytes := by
  have hlive : (store.users.entries.map (fun e => signed e.2.bytes)).sum = ∑ᶠ u,
    entry store.users u :=
    Dict.sum_entries store.users (fun user => signed user.bytes)
  unfold trafficTotals
  rw [hlive]
  simp only [bytes_record]
  cases hcounters : store.counters with
  | none =>
    simp only [Option.isSome_none, Bool.false_eq_true, if_false]
    congr 1
    funext u
    split
    · rfl
    next hu =>
      rw [entry_eq history.usage, h.early hcounters u hu, entry, Dict.valueAt_of_not_mem hu,
        signed_zero]
  | some c =>
    let both : String → Int × Int :=
      fun u => if u ∈ store.users.keys then entry history.usage u else 0
    have hboth : (store.users.keys.map (fun u => signed (bytesOf history.usage u))).sum = ∑ᶠ u,
        both u := by
      have hzero : ∀ u ∉ store.users.keys, both u = 0 := fun u hu => if_neg hu
      rw [← Dict.sum_map_eq_finsum store.users.nodup hzero]
      congr 1
      apply List.map_congr_left
      intro u hu
      rw [← entry_eq]
      exact (if_pos hu).symm
    have hfinite : both.HasFiniteSupport := by
      refine (Dict.hasFiniteSupport_valueAt history.usage (fun user => signed user.bytes)).subset ?_
      intro u hu hzero
      exact hu (by simp only [both, hzero, ite_self])
    simp only [Option.isSome_some, if_true]
    have husage := Dict.hasFiniteSupport_valueAt history.usage (fun user => signed user.bytes)
    rw [h.balanced, hboth, ← finsum_sub_distrib husage hfinite,
      ← finsum_add_distrib (Dict.hasFiniteSupport_valueAt store.users _) (husage.fun_sub hfinite)]
    congr 1
    funext u
    by_cases hu : u ∈ store.users.keys
    · simp [both, hu]
    · simp [both, hu, Dict.valueAt_of_not_mem hu]

end Totals

section Steps

variable {w : World} {step : Step} {users usage : Dict String User} {steps : List Step}

def evicted (w : World) : Step → List String
  | .archive activeIds false => (cold w.store activeIds).keys
  | .delete userId false => [userId]
  | _ => []

/-- No pass overlooks a user with archived bytes, and no bytes are taken out of the store before the
first runtime pass. -/
structure Kept (w : World) (step : Step) : Prop where
  usage : step.isReset = false
  known : ∀ u ∈ w.history.usage.keys, w.overlooks step u → bytesOf w.history.usage u = 0
  early : w.store.counters = none → ∀ u ∈ evicted w step, bytesOf w.store.users u = 0

instance (w : World) (step : Step) : Decidable (Kept w step) :=
  decidable_of_iff (step.isReset = false ∧
      (∀ u ∈ w.history.usage.keys, w.overlooks step u → bytesOf w.history.usage u = 0) ∧
      (w.store.counters = none → ∀ u ∈ evicted w step, bytesOf w.store.users u = 0))
    ⟨fun h => ⟨h.1, h.2.1, h.2.2⟩, fun h => ⟨h.1, h.2, h.3⟩⟩

theorem bytes_of_not_mem {u : String} (hu : u ∉ users.keys) :
    bytesOf usage u = (record users usage u).bytes := by
  rw [record, Dict.get?_eq_none.mpr hu, Option.none_or]
  rfl

theorem bytes_of_mem {u : String} (hu : u ∈ users.keys) :
    bytesOf users u = (record users usage u).bytes := by
  obtain ⟨user, huser⟩ := Dict.mem_keys_iff.mp hu
  rw [record, bytesOf, huser, Option.some_or]

theorem bytes_next (hkept : Kept w step) : ∃ new, (w.next step).posted = new ++ w.posted ∧
    ∀ u, ((w.next step).record u).bytes = (w.record u).bytes + credits new u := by
  obtain ⟨new, hposted, hrecord⟩ := record_next w hkept.usage
  refine ⟨new, hposted, fun u => ?_⟩
  obtain hsame | ⟨hoverlooks, hbegun⟩ := hrecord u
  · rw [hsame, bytes_grown]
  · obtain ⟨hmem, hstore⟩ := mem_of_overlooks hoverlooks
    have hzero := hkept.known u hmem hoverlooks
    rw [bytes_of_not_mem hstore] at hzero
    rw [hbegun, bytes_grown, World.record, hzero]
    rfl

theorem balanced_next (h : Balanced w.history) : Balanced (w.next step).history := by
  cases step with
  | collect sample crash =>
    simp only [World.next, World.collect]
    split
    · exact h
    next c retiredEpochs _ =>
      have hsame : Balanced { w.history with retiredEpochs := retiredEpochs } := h
      exact hsame.archiveUsage _
  | archive activeIds crash => exact h.archiveUsage _
  | delete userId crash =>
    simp only [World.next, World.written, deleteUserTraffic]
    split
    · exact h.archiveUsage _
    · exact h
  | acknowledge confirmed => exact h
  | resetTraffic userId cycleStart policies now enforced =>
    simp only [World.next]
    split
    · exact h
    · exact h
  | resetUserTraffic => exact h

theorem counters_next (h : (w.next step).store.counters = none) (hstep : step.isReset = false) :
    w.store.counters = none ∧ (w.next step).posted = w.posted ∧
      ∀ u ∈ w.store.users.keys, u ∉ (w.next step).store.users.keys → u ∈ evicted w step := by
  cases step with
  | collect sample crash =>
    simp only [World.next, World.collect] at h ⊢
    split at h
    next e retiredEpochs herror =>
      exact ⟨h, rfl, fun u hu hnot => absurd hu hnot⟩
    next c retiredEpochs hok =>
      cases crash with
      | true => exact ⟨h, rfl, fun u hu hnot => absurd hu hnot⟩
      | false =>
        have hsome := (collectRuntime_ok hok).counters
        have hnone : c.store.counters = none := h
        simp [hnone] at hsome
  | archive activeIds crash =>
    cases crash with
    | true => exact ⟨h, rfl, fun u hu hnot => absurd hu hnot⟩
    | false =>
      refine ⟨h, rfl, fun u hu hnot => ?_⟩
      obtain ⟨user, huser⟩ := Dict.mem_keys_iff.mp hu
      have hnone := Dict.get?_eq_none.mpr hnot
      simp only [World.next, World.written, archiveInactive, Bool.false_eq_true, if_false,
        Dict.get?_filterKeys, huser, decide_eq_true_eq] at hnone
      refine Dict.mem_keys_iff.mpr ⟨user, ?_⟩
      rw [get?_cold, huser]
      by_cases hcold : u ∉ activeIds ∧ u ∉ retained w.store
      · rw [if_pos hcold]
      · simp [hcold] at hnone
  | delete userId crash =>
    cases crash with
    | true => exact ⟨h, rfl, fun u hu hnot => absurd hu hnot⟩
    | false =>
      refine ⟨h, rfl, fun u hu hnot => ?_⟩
      by_contra hne
      exact hnot (Dict.mem_keys_erase.mpr ⟨fun heq => hne (heq ▸ List.mem_cons_self), hu⟩)
  | acknowledge confirmed =>
    exact ⟨Option.map_eq_none_iff.mp h, rfl, fun u hu hnot => absurd hu hnot⟩
  | resetTraffic => cases hstep
  | resetUserTraffic => cases hstep

theorem Sound.next (h : Sound w.store w.history) (hkept : Kept w step) :
    Sound (w.next step).store (w.next step).history := by
  refine ⟨balanced_next h.balanced, fun hcounters u hu => ?_⟩
  obtain ⟨hbefore, hposted, hevicted⟩ := counters_next hcounters hkept.usage
  obtain ⟨new, hnew, hbytes⟩ := bytes_next hkept
  have hnil : new = [] := List.append_left_eq_self.mp (hnew.symm.trans hposted)
  have hrecord := hbytes u
  rw [hnil, credits_of_no_owner (by simp), add_zero] at hrecord
  rw [bytes_of_not_mem hu]
  refine hrecord.trans ?_
  by_cases hmem : u ∈ w.store.users.keys
  · exact (bytes_of_mem hmem).symm.trans (hkept.early hbefore u (hevicted u hmem hu))
  · exact (bytes_of_not_mem hmem).symm.trans (h.early hbefore u hmem)

theorem Sound.run (h : Sound w.store w.history) (hkept : Permitted World.next Kept steps w) :
    Sound (run World.next steps w).store (run World.next steps w).history := by
  have hstep : ∀ w step, (fun w : World => Sound w.store w.history) w → Kept w step →
      (fun w : World => Sound w.store w.history) (w.next step) := fun _ _ h hkept => h.next hkept
  exact run_invariant hstep h hkept

theorem bytes_run (hkept : Permitted World.next Kept steps w) :
    ∃ new, (run World.next steps w).posted = new ++ w.posted ∧
      ∀ u, ((run World.next steps w).record u).bytes = (w.record u).bytes + credits new u := by
  induction steps generalizing w with
  | nil => exact ⟨[], rfl, fun u => (add_zero _).symm⟩
  | cons step steps ih =>
    obtain ⟨new, hposted, hbytes⟩ := bytes_next hkept.1
    obtain ⟨later, hlater, hrest⟩ := ih hkept.2
    refine ⟨later ++ new, ?_, fun u => ?_⟩
    · rw [List.append_assoc, ← hposted]
      exact hlater
    · rw [credits_append, add_comm (credits later u), ← add_assoc, ← hbytes u]
      exact hrest u

end Steps

def World.totals (w : World) : Int × Int := trafficTotals w.store w.history

/-- From one state of a run to a later one, every user has what was credited to them, and the node
all of it. -/
theorem archiving_keeps_usage (store : TrafficStore) (retiredEpochs : List String)
    (first rest : List Step) (h : Permitted World.next Kept (first ++ rest)
      { store := store, history := { retiredEpochs := retiredEpochs } }) :
    let v := run World.next first { store := store, history := { retiredEpochs := retiredEpochs } }
    let v' := run World.next rest v
    ∃ new, v'.posted = new ++ v.posted ∧
      World.totals v' = World.totals v + signed (credited new) ∧ World.totals v ≤ World.totals v' ∧
      ∀ u, (v'.record u).bytes = (v.record u).bytes + credits new u ∧
      (v.record u).bytes ≤ (v'.record u).bytes := by
  intro v v'
  obtain ⟨hfirst, hrest⟩ := permitted_append h
  have hstart : Sound store { retiredEpochs := retiredEpochs } := by
    refine ⟨?_, fun _ u _ => rfl⟩
    simp [Balanced, entry, Dict.valueAt]
  have hv : Sound v.store v.history := hstart.run hfirst
  have hv' : Sound v'.store v'.history := hv.run hrest
  obtain ⟨new, hposted, hbytes⟩ := bytes_run hrest
  have htotals : World.totals v' = World.totals v + signed (credited new) := by
    rw [World.totals, World.totals, hv.totals, hv'.totals, ← finsum_credits,
      ← finsum_add_distrib (support_record v.store.users v.history.usage) (credits_support new)]
    congr 1
    funext u
    exact congrArg signed (hbytes u)
  refine ⟨new, hposted, htotals, ?_, fun u => ⟨hbytes u, ?_⟩⟩
  · rw [htotals]
    exact le_add_of_nonneg_right ⟨Int.natCast_nonneg _, Int.natCast_nonneg _⟩
  · rw [hbytes u]
    exact le_self_add

section Examples

def emptyTraffic : TrafficStore :=
  { users := Dict.empty, collected := false, counters := none, connections := Dict.empty }

def sampledTraffic : TrafficStore :=
  { emptyTraffic with users := Dict.empty.set "bob" { upload := 100 }, collected := true }

def bobRow (upload : Nat) : Row := ⟨⟨"vless-in", "node-manager:bob", "1"⟩, upload, 0, true⟩

def counted (upload : Nat) : Sample where
  native := ⟨"core", .two, [bobRow upload], by simp [bobRow]⟩
  connections := some []
  authMap := Dict.empty.set "node-manager:bob" "bob"
  aliases := Dict.empty
  policies := ["bob"]

def lingering : Sample where
  native := ⟨"core", .two, [], by decide⟩
  connections := some [⟨some "c1", ["node-manager-out:bob"], [], 5, 5⟩]
  authMap := Dict.empty
  aliases := Dict.empty
  policies := []

def recreated : List Step := [.collect (counted 100) false, .delete "bob" true, .delete "bob" false]

theorem recreated_keeps_usage :
    let v := run World.next recreated { store := emptyTraffic, history := { retiredEpochs := [] } }
    let v' := run World.next [.collect (counted 160) true, .collect (counted 160) false] v
    ∃ new, v'.posted = new ++ v.posted ∧
      World.totals v' = World.totals v + signed (credited new) ∧ World.totals v ≤ World.totals v' ∧
      ∀ u, (v'.record u).bytes = (v.record u).bytes + credits new u ∧
      (v.record u).bytes ≤ (v'.record u).bytes :=
  archiving_keeps_usage emptyTraffic [] recreated
    [.collect (counted 160) true, .collect (counted 160) false] (by decide +kernel)

/-- The total falls when a user is deleted before the first runtime pass, and when a connection of a
deleted user is still listed. -/
theorem archived_usage_dropped :
    World.totals { store := sampledTraffic, history := {} } = (100, 0) ∧
      World.totals (run World.next [.delete "bob" false]
        { store := sampledTraffic, history := {} }) = (0, 0) ∧
    (let v := run World.next [.collect (counted 100) false, .acknowledge [(bobRow 100).key],
      .delete "bob" false]
        { store := emptyTraffic, history := {} }
      let v' := run World.next [.collect lingering false] v
      World.totals v = (100, 0) ∧ (v.record "bob").bytes = (100, 0) ∧
        World.totals v' = (0, 0) ∧ (v'.record "bob").bytes = (0, 0)) := by
  decide +kernel

end Examples

end NodeManager.UsageArchive
