import NodeManager.PeerRecords
import NodeManager.Runs
import NodeManager.TrafficResets

namespace NodeManager.RetiredSources

open Dictionary EpochOrder Outcomes PeerRecords Runs SharedQuota TrafficRecords TrafficResets

inductive Step
  | importOrigins (origins : Dict String Origin) (cycleStart : Option Int) (manualResetAt : Int)
    (sourceEpoch : Option Epoch) (rest : Except ResetError Unit)
  | observe (account : Account) (sourceNode observedAt : String) (item : Update)
  | resetTraffic (cycleStart : Option CycleStart) (now : Int)
  | resetUserTraffic (renewalKey : Option String) (now : Int)

/-- The record, the sources and epochs that were accepted, and those from before the last reset. -/
structure World where
  user : User
  accepted : List (String × Epoch)
  retired : List (String × Epoch) := []

def held (user : User) : List (String × Epoch) :=
  user.replicatedTrafficOrigins.entries.map (fun e => (e.1, e.2.epoch)) ++
    user.sharedQuotaEvidence.entries.map (fun e => (e.1, e.2.sourceEpoch))

def World.start (user : User) : World := ⟨user, held user, []⟩

section Steps

variable (iso : String → Option Stamp) (localNode : String)

/-- `replicate_users` with one record of the store it has read. It has a copy of this store, which
it writes when the import raises, or the `rest` of the request. -/
def replicate (user : User) (origins : Dict String Origin) (cycleStart : Option Int)
    (manualResetAt : Int) (sourceEpoch : Option Epoch) (rest : Except ResetError Unit) :
    User × Except ResetError Unit :=
  let original := user
  match SharedQuota.importOrigins iso user origins localNode cycleStart manualResetAt
    sourceEpoch with
  | (_, .error e) => (original, .error (.quota e))
  | (usage, .ok ()) =>
    match rest with
    | .error e => (original, .error e)
    | .ok () => (usage, .ok ())

def staged (user : User) : Except ResetError User → User × Except ResetError Unit
  | .ok written => (written, .ok ())
  | .error e => (user, .error e)

def Step.apply (user : User) : Step → User × Except ResetError Unit
  | .importOrigins origins cycleStart manualResetAt sourceEpoch rest =>
    replicate iso localNode user origins cycleStart manualResetAt sourceEpoch rest
  | .observe account sourceNode observedAt item =>
    staged user ((SharedQuota.observe iso user account sourceNode observedAt item).mapError .quota)
  | .resetTraffic cycleStart now => staged user ((cleared user).map (cycleStamp cycleStart now))
  | .resetUserTraffic renewalKey now =>
    staged user ((cleared user).map (renewalStamp renewalKey now))

def Step.brings (user : User) : Step → List (String × Epoch)
  | .importOrigins origins _ _ _ _ =>
    (origins.entries.filter (fun e => e.1 ≠ localNode)).map (fun e => (e.1, e.2.epoch))
  | .observe _ sourceNode _ item =>
    if sameCycle (epoch user) item.source.epoch then [(sourceNode, item.source.epoch)] else []
  | _ => []

def Step.isReset : Step → Bool
  | .resetTraffic .. => true
  | .resetUserTraffic .. => true
  | _ => false

def World.next (step : Step) (w : World) : World :=
  match step.apply iso localNode w.user with
  | (user, .ok ()) =>
    ⟨user, step.brings localNode w.user ++ w.accepted, if step.isReset then w.accepted
      else w.retired⟩
  | (user, .error _) => { w with user := user }

end Steps

/-- The epochs of the source in its tombstone, its origin and its evidence; a reset retires the
last. -/
def known (user : User) (source : String) : List Epoch :=
  (user.sharedQuotaRetiredSources.get? source).toList ++
    ((user.replicatedTrafficOrigins.get? source).map Origin.epoch).toList ++
    ((user.sharedQuotaEvidence.get? source).map Evidence.sourceEpoch).toList

def sources (user : User) : List String :=
  user.replicatedTrafficOrigins.keys ++ user.sharedQuotaEvidence.keys

/-- When the record is reset, the last epoch known of a source is the latest one. -/
def Latest (iso : String → Option Stamp) (w : World) (step : Step) : Prop :=
  step.isReset = true → ∀ s ∈ sources w.user, ∀ x ∈ known w.user s, ∀ t ∈ (known w.user s).getLast?,
    x = t ∨ advanced iso x t = true

instance (iso : String → Option Stamp) (w : World) (step : Step) : Decidable (Latest iso w step) :=
  inferInstanceAs (Decidable (_ → _))

variable {iso : String → Option Stamp} {localNode : String} {user user' : User}
  {s : String} {e : Epoch}

def Covered (iso : String → Option Stamp) (user : User) (s : String) (e : Epoch) : Prop :=
  (∃ r, user.replicatedTrafficOrigins.get? s = some r ∧ advanced iso r.epoch e = false) ∨
  (∃ v, user.sharedQuotaEvidence.get? s = some v ∧ advanced iso v.sourceEpoch e = false)

def Refused (iso : String → Option Stamp) (user : User) (s : String) (e : Epoch) : Prop :=
  ∃ t, user.sharedQuotaRetiredSources.get? s = some t ∧ advanced iso t e = false ∧
    ∀ v, user.sharedQuotaEvidence.get? s = some v → advanced iso t v.sourceEpoch = true

theorem not_advanced_of_later {a b : Epoch} (h : a = b ∨ advanced iso a b = true)
    (he : advanced iso a e = false) :
    advanced iso b e = false := by
  by_contra hback
  have hback : advanced iso b e = true := by simpa using hback
  obtain rfl | h := h
  · cases hback.symm.trans he
  · cases (advanced_trans h hback).symm.trans he

theorem not_advanced_self (a : Epoch) : advanced iso a a = false := by
  by_contra h
  exact ne_of_advanced (by simpa using h) rfl

theorem Refused.not_readmitted (h : Refused iso user s e) :
    readmitted iso (user.sharedQuotaRetiredSources.get? s) e = false := by
  obtain ⟨t, ht, hnot, -⟩ := h
  simp [readmitted, ht, hnot]

theorem mergeOrigin_later (iso : String → Option Stamp) (previous : Option Origin)
    (incoming : Origin) :
    advanced iso (mergeOrigin iso previous incoming).epoch incoming.epoch = false ∧
      ∀ p, previous = some p → p.epoch = (mergeOrigin iso previous incoming).epoch ∨
        advanced iso p.epoch (mergeOrigin iso previous incoming).epoch = true := by
  cases previous with
  | none => exact ⟨not_advanced_self _, by simp⟩
  | some p =>
    have heq : ∀ q, some p = some q → q = p := fun q hq => (Option.some.inj hq).symm
    by_cases hepoch : p.epoch = incoming.epoch
    · have hmerged : (mergeOrigin iso (some p) incoming).epoch = incoming.epoch := by
        simp only [mergeOrigin, hepoch, ne_eq, not_true_eq_false, if_false]
        split
        · rfl
        · exact hepoch
      rw [hmerged]
      exact ⟨not_advanced_self _, fun q hq => .inl (heq q hq ▸ hepoch)⟩
    · by_cases hadvanced : advanced iso p.epoch incoming.epoch = true
      · rw [mergeOrigin_advanced hadvanced]
        exact ⟨not_advanced_self _, fun q hq => .inr (heq q hq ▸ hadvanced)⟩
      · have hnot : advanced iso p.epoch incoming.epoch = false := by simpa using hadvanced
        rw [mergeOrigin_kept hepoch hnot]
        exact ⟨hnot, fun q hq => .inl (heq q hq ▸ rfl)⟩

theorem importOrigins_parts {origins : Dict String Origin} {cycleStart : Option Int}
    {manualResetAt : Int} {sourceEpoch : Option Epoch}
    (h : importOrigins iso user origins localNode cycleStart manualResetAt sourceEpoch =
      (user', .ok ())) :
    user'.sharedQuotaEvidence = user.sharedQuotaEvidence ∧
    user'.sharedQuotaRetiredSources = user.sharedQuotaRetiredSources ∧
    (∀ s r, s ≠ localNode → origins.get? s = some r →
      readmitted iso (user.sharedQuotaRetiredSources.get? s) r.epoch = true ∧
      user'.replicatedTrafficOrigins.get? s =
      some (mergeOrigin iso (user.replicatedTrafficOrigins.get? s) r)) ∧
    ∀ s, s = localNode ∨ origins.get? s = none →
      user'.replicatedTrafficOrigins.get? s = user.replicatedTrafficOrigins.get? s := by
  obtain ⟨base, merged, himports, rfl, -, -, hbase⟩ := importOrigins_ok h
  obtain ⟨hevidence, hretired, horigins⟩ : base.sharedQuotaEvidence = user.sharedQuotaEvidence ∧
      base.sharedQuotaRetiredSources = user.sharedQuotaRetiredSources ∧
      base.replicatedTrafficOrigins = user.replicatedTrafficOrigins := by
    obtain ⟨-, rfl⟩ | ⟨-, -, rfl⟩ := hbase
    · exact ⟨rfl, rfl, rfl⟩
    · exact ⟨rfl, rfl, rfl⟩
  refine ⟨?_, ?_, fun s r hs hr => ⟨?_, ?_⟩, fun s hs => ?_⟩
  · rw [← hevidence, himports.rest]
  · rw [← hretired, himports.rest]
  · rw [← hretired]
    exact (himports.admitted s r hs hr).2
  · rw [← horigins]
    refine (himports.merged s).trans ?_
    rw [if_neg hs, hr]
  rw [← horigins]
  refine (himports.merged s).trans ?_
  obtain rfl | hs := hs
  · rw [if_pos rfl]
  · rw [hs, ite_self]

section Imports

variable {origins : Dict String Origin} {cycleStart : Option Int} {manualResetAt : Int}
  {sourceEpoch : Option Epoch} (h : importOrigins iso user origins localNode cycleStart
    manualResetAt sourceEpoch = (user', .ok ()))

include h

theorem Refused.imported (hr : Refused iso user s e) : Refused iso user' s e := by
  obtain ⟨hevidence, hretired, -⟩ := importOrigins_parts h
  unfold Refused
  rw [hevidence, hretired]
  exact hr

theorem origin_imported (s : String) : (∃ r, s ≠ localNode ∧ origins.get? s = some r) ∨
    user'.replicatedTrafficOrigins.get? s = user.replicatedTrafficOrigins.get? s := by
  obtain ⟨-, -, -, hkept⟩ := importOrigins_parts h
  by_cases hs : s = localNode
  · exact .inr (hkept s (.inl hs))
  cases hr : origins.get? s with
  | none => exact .inr (hkept s (.inr hr))
  | some r => exact .inl ⟨r, hs, rfl⟩

theorem Covered.imported (hc : Covered iso user s e) : Covered iso user' s e := by
  obtain ⟨hevidence, -, hmerged, -⟩ := importOrigins_parts h
  obtain ⟨p, hp, hnot⟩ | hc := hc
  · refine .inl ?_
    obtain ⟨r, hs, hr⟩ | hsame := origin_imported h s
    · exact ⟨_, (hmerged s r hs hr).2,
        not_advanced_of_later ((mergeOrigin_later iso _ r).2 p hp) hnot⟩
    · exact ⟨p, hsame.trans hp, hnot⟩
  · exact .inr (hevidence ▸ hc)

theorem covered_imported {r : Origin} (hs : s ≠ localNode) (hr : origins.get? s = some r) :
    Covered iso user' s r.epoch := by
  obtain ⟨-, -, hmerged, -⟩ := importOrigins_parts h
  exact .inl ⟨_, (hmerged s r hs hr).2, (mergeOrigin_later iso _ r).1⟩

end Imports

section Observations

variable {account : Account} {node observedAt : String} {item : Update} {p : Evidence}

structure Renewed (iso : String → Option Stamp) (user : User) (node : String)
    (v : Evidence) : Prop where
  readmitted : ∀ t, user.sharedQuotaRetiredSources.get? node = some t →
    advanced iso t v.sourceEpoch = true
  later : ∀ p, user.sharedQuotaEvidence.get? node = some p →
    p.sourceEpoch = v.sourceEpoch ∨ advanced iso p.sourceEpoch v.sourceEpoch = true

theorem observe_cases (h : observe iso user account node observedAt item = .ok user') :
    (sameCycle (epoch user) item.source.epoch = true ∧ ∃ v, v.sourceEpoch = item.source.epoch ∧
      Renewed iso user node v ∧
      user' = { user with sharedQuotaEvidence := user.sharedQuotaEvidence.set node v }) ∨
    (sameCycle (epoch user) item.source.epoch = false ∧
      ∃ p, user.sharedQuotaEvidence.get? node = some p ∧
      user' = { user with
        sharedQuotaRetiredSources := user.sharedQuotaRetiredSources.set node p.sourceEpoch
        sharedQuotaEvidence := user.sharedQuotaEvidence.erase node }) := by
  obtain ⟨identity, hobserved, ⟨hcycle, rfl⟩ | ⟨hcycle, p, hp, -, rfl⟩⟩ := observe_ok h
  · refine .inl ⟨hcycle, _, rfl, ⟨fun t ht => ?_, fun p hp => ?_⟩, rfl⟩
    · have hreadmitted := hobserved.readmitted
      rw [ht] at hreadmitted
      simp only [readmitted, Option.all_some, Bool.and_eq_true] at hreadmitted
      exact hreadmitted.2
    · have hprevious := hobserved.previous
      rw [hp, checkPrevious_iff] at hprevious
      obtain ⟨hsame, -⟩ | hadvanced := hprevious.2.2
      · exact .inl hsame
      · exact .inr hadvanced
  · exact .inr ⟨hcycle, p, hp, rfl⟩

theorem get?_set_evidence (v : Evidence) (s : String) :
    (user.sharedQuotaEvidence.set node v).get? s = if s = node then some v
    else user.sharedQuotaEvidence.get? s :=
  Dict.get?_set _ _ _ s

theorem Refused.renewed {v : Evidence} (hv : Renewed iso user node v) (h : Refused iso user s e) :
    Refused iso { user with sharedQuotaEvidence := user.sharedQuotaEvidence.set node v } s e := by
  obtain ⟨t, ht, hnot, hlater⟩ := h
  refine ⟨t, ht, hnot, fun v' hv' => ?_⟩
  rw [get?_set_evidence] at hv'
  split at hv'
  next hs =>
    cases hv'
    exact hv.readmitted t (hs ▸ ht)
  · exact hlater v' hv'

theorem Covered.renewed {v : Evidence} (hv : Renewed iso user node v) (h : Covered iso user s e) :
    Covered iso { user with sharedQuotaEvidence := user.sharedQuotaEvidence.set node v } s e := by
  obtain h | ⟨p, hp, hnot⟩ := h
  · exact .inl h
  refine .inr ?_
  by_cases hs : s = node
  · subst hs
    exact ⟨v, by rw [get?_set_evidence, if_pos rfl], not_advanced_of_later (hv.later p hp) hnot⟩
  · exact ⟨p, by rw [get?_set_evidence, if_neg hs, hp], hnot⟩

def withdrawn (user : User) (node : String) (p : Evidence) : User :=
  { user with
    sharedQuotaRetiredSources := user.sharedQuotaRetiredSources.set node p.sourceEpoch
    sharedQuotaEvidence := user.sharedQuotaEvidence.erase node }

theorem get?_withdrawn (user : User) (node : String) (p : Evidence) (s : String) :
    (withdrawn user node p).sharedQuotaRetiredSources.get? s =
      (if s = node then some p.sourceEpoch else user.sharedQuotaRetiredSources.get? s) ∧
    (withdrawn user node p).sharedQuotaEvidence.get? s =
      if s = node then none else user.sharedQuotaEvidence.get? s :=
  ⟨Dict.get?_set _ _ _ s, Dict.get?_erase _ _ s⟩

theorem refused_withdrawn (hnot : advanced iso p.sourceEpoch e = false) :
    Refused iso (withdrawn user node p) node e := by
  refine ⟨p.sourceEpoch, ?_, hnot, fun v hv => ?_⟩
  · rw [(get?_withdrawn user node p node).1, if_pos rfl]
  · rw [(get?_withdrawn user node p node).2, if_pos rfl] at hv
    cases hv

theorem Refused.withdrawn (hp : user.sharedQuotaEvidence.get? node = some p)
    (h : Refused iso user s e) :
    Refused iso (withdrawn user node p) s e := by
  obtain ⟨t, ht, hnot, hlater⟩ := h
  by_cases hs : s = node
  · subst hs
    exact refused_withdrawn (not_advanced_of_later (.inr (hlater p hp)) hnot)
  refine ⟨t, ?_, hnot, fun v hv => ?_⟩
  · rw [(get?_withdrawn user node p s).1, if_neg hs, ht]
  · rw [(get?_withdrawn user node p s).2, if_neg hs] at hv
    exact hlater v hv

theorem Covered.withdrawn (hp : user.sharedQuotaEvidence.get? node = some p)
    (h : Covered iso user s e) :
    Covered iso (withdrawn user node p) s e ∨
    Refused iso (RetiredSources.withdrawn user node p) s e := by
  obtain h | ⟨v, hv, hnot⟩ := h
  · exact .inl (.inl h)
  by_cases hs : s = node
  · subst hs
    cases hp.symm.trans hv
    exact .inr (refused_withdrawn hnot)
  · refine .inl (.inr ⟨v, ?_, hnot⟩)
    rw [(get?_withdrawn user node p s).2, if_neg hs, hv]

end Observations

section Resets

structure Cleared (user user' : User) : Prop where
  origins : user'.replicatedTrafficOrigins = Dict.empty
  evidence : user'.sharedQuotaEvidence = Dict.empty
  retired : user'.sharedQuotaRetiredSources = retire user

theorem cleared_cycleStamp {start : Option CycleStart} {now : Int}
    (h : (cleared user).map (cycleStamp start now) = .ok user') : Cleared user user' := by
  cases hcleared : cleared user with
  | error e =>
    rw [hcleared] at h
    cases h
  | ok middle =>
    rw [hcleared] at h
    cases h
    rw [cleared_ok hcleared]
    cases start <;> exact ⟨rfl, rfl, rfl⟩

theorem cleared_renewalStamp {key : Option String} {now : Int}
    (h : (cleared user).map (renewalStamp key now) = .ok user') : Cleared user user' := by
  cases hcleared : cleared user with
  | error e =>
    rw [hcleared] at h
    cases h
  | ok middle =>
    rw [hcleared] at h
    cases h
    rw [cleared_ok hcleared]
    cases key <;> exact ⟨rfl, rfl, rfl⟩

theorem get?_retire_eq (user : User) (s : String) :
    (retire user).get? s = (known user s).getLast? := by
  rw [get?_retire, known]
  cases user.sharedQuotaEvidence.get? s <;> cases user.replicatedTrafficOrigins.get? s <;>
    cases user.sharedQuotaRetiredSources.get? s <;> rfl

theorem mem_known (h : Covered iso user s e ∨ Refused iso user s e) :
    ∃ x ∈ known user s, advanced iso x e = false := by
  obtain (⟨r, hr, hnot⟩ | ⟨v, hv, hnot⟩) | ⟨t, ht, hnot, -⟩ := h
  · exact ⟨r.epoch, by simp [known, hr], hnot⟩
  · exact ⟨v.sourceEpoch, by simp [known, hv], hnot⟩
  · exact ⟨t, by simp [known, ht], hnot⟩

theorem known_of_not_mem_sources (hs : s ∉ sources user) :
    known user s = (user.sharedQuotaRetiredSources.get? s).toList := by
  rw [sources, List.mem_append, not_or] at hs
  rw [known, Dict.get?_eq_none.mpr hs.1, Dict.get?_eq_none.mpr hs.2]
  simp

theorem later_last (hlatest : ∀ s ∈ sources user, ∀ x ∈ known user s, ∀ t ∈ (known user s).getLast?,
      x = t ∨ advanced iso x t = true) {x t : Epoch} (hx : x ∈ known user s)
    (ht : (known user s).getLast? = some t) : x = t ∨ advanced iso x t = true := by
  by_cases hs : s ∈ sources user
  · exact hlatest s hs x hx t ht
  rw [known_of_not_mem_sources hs] at hx ht
  rw [Option.mem_toList] at hx
  rw [hx] at ht
  exact .inl (Option.some.inj ht)

theorem Cleared.refused (h : Cleared user user')
    (hlatest : ∀ s ∈ sources user, ∀ x ∈ known user s, ∀ t ∈ (known user s).getLast?,
      x = t ∨ advanced iso x t = true)
    (hkept : Covered iso user s e ∨ Refused iso user s e) : Refused iso user' s e := by
  obtain ⟨x, hx, hnot⟩ := mem_known hkept
  obtain ⟨t, ht⟩ := Option.ne_none_iff_exists'.mp
    (mt List.getLast?_eq_none_iff.mp (List.ne_nil_of_mem hx))
  refine ⟨t, ?_, not_advanced_of_later (later_last hlatest hx ht) hnot, fun v hv => ?_⟩
  · rw [h.retired, get?_retire_eq, ht]
  rw [h.evidence] at hv
  cases hv

end Resets

section Runs

/-- What was accepted is kept in check by the record, and what was retired is refused and not
held. -/
structure Inv (iso : String → Option Stamp) (w : World) : Prop where
  accepted : ∀ p ∈ w.accepted, Covered iso w.user p.1 p.2 ∨ Refused iso w.user p.1 p.2
  retired : ∀ p ∈ w.retired, Refused iso w.user p.1 p.2
  origins : ∀ s r, w.user.replicatedTrafficOrigins.get? s = some r → (s, r.epoch) ∉ w.retired
  evidence : ∀ s v, w.user.sharedQuotaEvidence.get? s = some v → (s, v.sourceEpoch) ∉ w.retired

theorem inv_start (user : User) : Inv iso (World.start user) := by
  refine ⟨fun p hp => .inl ?_, by simp [World.start], by simp [World.start], by simp [World.start]⟩
  obtain hp | hp := List.mem_append.mp hp
  · obtain ⟨⟨s, r⟩, hr, rfl⟩ := List.mem_map.mp hp
    exact .inl ⟨r, Dict.mem_entries_iff.mp hr, not_advanced_self _⟩
  · obtain ⟨⟨s, v⟩, hv, rfl⟩ := List.mem_map.mp hp
    exact .inr ⟨v, Dict.mem_entries_iff.mp hv, not_advanced_self _⟩

variable {w : World}

theorem Inv.imported (hw : Inv iso w) {origins : Dict String Origin} {cycleStart : Option Int}
    {manualResetAt : Int} {sourceEpoch : Option Epoch}
    (h : importOrigins iso w.user origins localNode cycleStart manualResetAt sourceEpoch =
      (user', .ok ())) :
    Inv iso ⟨user', (origins.entries.filter (fun e => e.1 ≠ localNode)).map
      (fun e => (e.1, e.2.epoch)) ++ w.accepted, w.retired⟩ := by
  obtain ⟨hevidence, -, hmerged, -⟩ := importOrigins_parts h
  refine ⟨fun p hp => ?_, fun p hp => (hw.retired p hp).imported h, fun s m hm => ?_,
    hevidence ▸ hw.evidence⟩
  · obtain hp | hp := List.mem_append.mp hp
    · obtain ⟨⟨s, r⟩, hr, rfl⟩ := List.mem_map.mp hp
      obtain ⟨hr, hs⟩ := List.mem_filter.mp hr
      exact .inl (covered_imported h (by simpa using hs) (Dict.mem_entries_iff.mp hr))
    · exact (hw.accepted p hp).imp (Covered.imported h) (Refused.imported h)
  · obtain ⟨r, hs, hr⟩ | hsame := origin_imported h s
    · obtain ⟨hreadmitted, hstored⟩ := hmerged s r hs hr
      cases (show user'.replicatedTrafficOrigins.get? s = _ from hstored).symm.trans hm
      obtain hmerge | hmerge := mergeOrigin_cases iso (w.user.replicatedTrafficOrigins.get? s) r
      · rw [hmerge]
        intro hmem
        cases ((hw.retired _ hmem).not_readmitted).symm.trans hreadmitted
      · exact hw.origins s _ hmerge
    · exact hw.origins s m (hsame ▸ hm)

theorem Inv.renewed (hw : Inv iso w) {node : String} {v : Evidence}
    (hv : Renewed iso w.user node v) :
    Inv iso ⟨{ w.user with sharedQuotaEvidence := w.user.sharedQuotaEvidence.set node v },
      [(node, v.sourceEpoch)] ++ w.accepted, w.retired⟩ := by
  refine ⟨fun p hp => ?_, fun p hp => (hw.retired p hp).renewed hv, hw.origins, fun s v' hv' => ?_⟩
  · obtain hp | hp := List.mem_append.mp hp
    · obtain rfl := List.mem_singleton.mp hp
      exact .inl (.inr ⟨v, by rw [get?_set_evidence, if_pos rfl], not_advanced_self _⟩)
    · exact (hw.accepted p hp).imp (Covered.renewed hv) (Refused.renewed hv)
  rw [get?_set_evidence] at hv'
  split at hv'
  next hs =>
    cases hv'
    intro hmem
    obtain ⟨t, ht, hnot, -⟩ := hw.retired _ hmem
    cases (hv.readmitted t (hs ▸ ht)).symm.trans hnot
  · exact hw.evidence s v' hv'

theorem Inv.withdrawn (hw : Inv iso w) {node : String} {p : Evidence}
    (hp : w.user.sharedQuotaEvidence.get? node = some p) :
    Inv iso ⟨RetiredSources.withdrawn w.user node p, w.accepted, w.retired⟩ := by
  refine ⟨fun q hq => ?_, fun q hq => (hw.retired q hq).withdrawn hp, hw.origins, fun s v hv => ?_⟩
  · obtain hc | hr := hw.accepted q hq
    · exact hc.withdrawn hp
    · exact .inr (hr.withdrawn hp)
  · rw [(get?_withdrawn w.user node p s).2] at hv
    split at hv
    · cases hv
    · exact hw.evidence s v hv

theorem Inv.reset (hw : Inv iso w) (hclear : Cleared w.user user')
    (hlatest : ∀ s ∈ sources w.user, ∀ x ∈ known w.user s, ∀ t ∈ (known w.user s).getLast?,
      x = t ∨ advanced iso x t = true) :
    Inv iso ⟨user', w.accepted, w.accepted⟩ := by
  have hrefused : ∀ p ∈ w.accepted, Refused iso user' p.1 p.2 :=
    fun p hp => hclear.refused hlatest (hw.accepted p hp)
  refine ⟨fun p hp => .inr (hrefused p hp), hrefused, fun s r hr => ?_, fun s v hv => ?_⟩
  · rw [show user'.replicatedTrafficOrigins = _ from hclear.origins] at hr
    cases hr
  · rw [show user'.sharedQuotaEvidence = _ from hclear.evidence] at hv
    cases hv

section

variable {origins : Dict String Origin} {cycleStart : Option Int} {manualResetAt : Int}
  {sourceEpoch : Option Epoch} {rest : Except ResetError Unit} {result : Except ResetError User}
  {raised : ResetError} {step : Step}

theorem replicate_ok (h : replicate iso localNode user origins cycleStart manualResetAt sourceEpoch
      rest = (user', .ok ())) :
    importOrigins iso user origins localNode cycleStart manualResetAt sourceEpoch =
    (user', .ok ()) := by
  unfold replicate at h
  split at h
  · cases h
  next usage himport =>
    cases rest with
    | error e => cases h
    | ok _ =>
      cases h
      exact himport

theorem replicate_error (h : (replicate iso localNode user origins cycleStart manualResetAt
      sourceEpoch rest).2 = .error raised) :
    (replicate iso localNode user origins cycleStart manualResetAt sourceEpoch rest).1 = user := by
  unfold replicate at h ⊢
  split at h
  · rfl
  · cases rest with
    | error e => rfl
    | ok _ => cases h

theorem staged_ok (h : staged user result = (user', .ok ())) : result = .ok user' := by
  cases result with
  | ok written =>
    cases h
    rfl
  | error e => cases h

theorem staged_error (h : (staged user result).2 = .error raised) :
    (staged user result).1 = user := by
  cases result with
  | ok written => cases h
  | error e => rfl

theorem apply_error (h : (step.apply iso localNode user).2 = .error raised) :
    (step.apply iso localNode user).1 = user := by
  cases step with
  | importOrigins origins cycleStart manualResetAt sourceEpoch rest => exact replicate_error h
  | observe account sourceNode observedAt item => exact staged_error h
  | resetTraffic cycleStart now => exact staged_error h
  | resetUserTraffic renewalKey now => exact staged_error h

theorem next_of_error (h : (step.apply iso localNode w.user).2 = .error raised) :
    w.next iso localNode step = w := by
  have hsame := apply_error h
  unfold World.next
  split
  next happly =>
    rw [happly] at h
    cases h
  next happly =>
    rw [happly] at hsame
    dsimp only at hsame
    rw [hsame]

end

theorem Inv.next (hw : Inv iso w) (step : Step) (hlatest : Latest iso w step) :
    Inv iso (w.next iso localNode step) := by
  cases hraised : (step.apply iso localNode w.user).2 with
  | error e => rwa [next_of_error hraised]
  | ok _ =>
    obtain ⟨user', happly⟩ : ∃ user', step.apply iso localNode w.user = (user', .ok ()) :=
      ⟨_, Prod.ext rfl hraised⟩
    rw [World.next, happly]
    cases step with
    | importOrigins origins cycleStart manualResetAt sourceEpoch rest =>
      exact hw.imported (replicate_ok happly)
    | observe account node observedAt item =>
      obtain ⟨hcycle, v, hepoch, hv, rfl⟩ | ⟨hcycle, p, hp, rfl⟩ :=
        observe_cases (mapError_eq_ok (staged_ok happly))
      · have hbrings : Step.brings localNode w.user (.observe account node observedAt item) =
          [(node, v.sourceEpoch)] := by
          rw [Step.brings, if_pos hcycle, hepoch]
        rw [hbrings]
        exact hw.renewed hv
      · have hbrings : Step.brings localNode w.user
          (.observe account node observedAt item) = [] := by
          rw [Step.brings, if_neg (by simp [hcycle])]
        rw [hbrings]
        exact hw.withdrawn hp
    | resetTraffic start now => exact hw.reset (cleared_cycleStamp (staged_ok happly)) (hlatest rfl)
    | resetUserTraffic key now =>
      exact hw.reset (cleared_renewalStamp (staged_ok happly)) (hlatest rfl)

end Runs

/-- Nothing that was accepted before a reset is counted again, and a refused offer changes
nothing. -/
theorem retired_stays_retired (iso : String → Option Stamp) (localNode : String) (user : User)
    (steps : List Step) (h : Permitted (World.next iso localNode) (Latest iso) steps
      (World.start user)) :
    let w := run (World.next iso localNode) steps (World.start user)
    (∀ limit s r, (peerOrigins iso w.user limit).get? s = some r → (s, r.epoch) ∉ w.retired) ∧
      ∀ step e, (step.apply iso localNode w.user).2 = .error e → w.next iso localNode step = w := by
  intro w
  have hw : Inv iso w := run_invariant (fun _ step hw hlatest => hw.next step hlatest)
    (inv_start user) h
  refine ⟨fun limit s r hr => ?_, fun step e herror => next_of_error herror⟩
  rw [get?_peerOrigins] at hr
  have horigin : ∀ o, currentOrigin w.user s = some o → (s, o.epoch) ∉ w.retired :=
    fun o ho => hw.origins s o (Option.filter_eq_some_iff.mp ho).1
  split at hr
  next v hv =>
    obtain hmerge | hmerge := mergeOrigin_cases iso (currentOrigin w.user s) (evidenceOrigin v)
    · rw [hmerge] at hr
      cases hr
      exact hw.evidence s v (Option.filter_eq_some_iff.mp hv).1
    · exact horigin r (hmerge.trans hr)
  · exact horigin r hr

section Examples

def sourceEpoch (key : String) (version : Int) : Epoch := ⟨.null, .null, .value key, .value version⟩

def offeredOrigin (version : Int) : Step :=
  .importOrigins (Dict.empty.set "node-1" ⟨100, 0, sourceEpoch "k1" version⟩) none 0
    (some (sourceEpoch "k1" version)) (.ok ())

def offeredEvidence (version : Int) : Step :=
  .observe ⟨some "digest", some 500⟩ "node-1" "t"
    ⟨"bob", ⟨"bob", "digest", 500, 30, sourceEpoch "k1" version, sourceEpoch "k1" version⟩,
      sourceEpoch "k1" 1⟩

def renewals : List Step := [.resetUserTraffic (some "k2") 0, .resetUserTraffic (some "k1") 0]

def mixed : Dict String Origin :=
  (Dict.empty.set "node-3" ⟨50, 0, sourceEpoch "k1" 0⟩).set "node-1" ⟨100, 0, sourceEpoch "k1" 3⟩

/-- The new source is stored in place before the other one is refused, and then not written. -/
theorem latest_retired :
    let w := run (World.next (fun _ => none) "node-2")
      ([.resetUserTraffic (some "k1") 0, offeredOrigin 3, offeredEvidence 5] ++ renewals ++
        [offeredOrigin 3])
      (World.start {})
    let result := importOrigins (fun _ => none) w.user mixed "node-2" none 0
      (some (sourceEpoch "k1" 0))
    let step := Step.importOrigins mixed none 0 (some (sourceEpoch "k1" 0)) (.ok ())
    (result.1.replicatedTrafficOrigins.keys = ["node-3"] ∧ result.2 = .error .sourceResetRequired ∧
      w.next (fun _ => none) "node-2" step = w) ∧
    (∀ limit s r, (peerOrigins (fun _ => none) w.user limit).get? s = some r →
      (s, r.epoch) ∉ w.retired) ∧
      ∀ step e, (step.apply (fun _ => none) "node-2" w.user).2 = .error e →
        w.next (fun _ => none) "node-2" step = w := by
  intro w result step
  have h := retired_stays_retired (fun _ => none) "node-2" {}
    ([.resetUserTraffic (some "k1") 0, offeredOrigin 3, offeredEvidence 5] ++ renewals ++
      [offeredOrigin 3])
    (by decide +kernel)
  exact ⟨⟨by decide +kernel, by decide +kernel,
    h.2 step (.quota .sourceResetRequired) (by decide +kernel)⟩, h⟩

/-- The evidence is from an earlier epoch than the origin, and the tombstone has its epoch. Two
resets later, in the same cycle again, the origin is counted once more. -/
theorem retired_origin_counted_again :
    let w := run (World.next (fun _ => none) "node-2")
      ([.resetUserTraffic (some "k1") 0, offeredOrigin 5, offeredEvidence 3] ++ renewals ++
        [offeredOrigin 5])
      (World.start {})
    ("node-1", sourceEpoch "k1" 5) ∈ w.retired ∧
      (peerOrigins (fun _ => none) w.user (some 500)).get? "node-1" =
      some ⟨100, 0, sourceEpoch "k1" 5⟩ ∧
      peerUsedBytes (fun _ => none) w.user (some 500) = 100 := by
  decide +kernel

end Examples

end NodeManager.RetiredSources
