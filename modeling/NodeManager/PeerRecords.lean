import NodeManager.EpochOrder

namespace NodeManager.PeerRecords

open Dictionary EpochOrder Outcomes SharedQuota TrafficRecords

variable {iso : String → Option Stamp}

section Tables

def currentEvidence (user : User) (limit : Option Nat) (source : String) : Option Evidence :=
  (user.sharedQuotaEvidence.get? source).filter
    (fun e => e.targetEpoch = epoch user ∧ some e.limitBytes = limit)

def currentOrigin (user : User) (source : String) : Option Origin :=
  (user.replicatedTrafficOrigins.get? source).filter (fun r => sameCycle (epoch user) r.epoch)

theorem get?_filterValues {α : Type} (d : Dict String α) (p : α → Bool) (k : String) :
    (⟨d.entries.filter (fun e => p e.2), d.nodup.sublist (List.filter_sublist.map _)⟩ : Dict
      String α).get? k =
      (d.get? k).filter p := by
  ext v
  rw [← Dict.mem_entries_iff, List.mem_filter, Dict.mem_entries_iff, Option.filter_eq_some_iff]

theorem get?_peerOrigins (user : User) (limit : Option Nat) (source : String) :
    (peerOrigins iso user limit).get? source =
      match currentEvidence user limit source with
      | some e => some (mergeOrigin iso (currentOrigin user source) (evidenceOrigin e))
      | none => currentOrigin user source := by
  unfold peerOrigins currentEvidence
  have horigin := get?_filterValues user.replicatedTrafficOrigins
    (fun r => sameCycle (epoch user) r.epoch) source
  rw [Dict.get?_foldl_update _ _ (fun e : Evidence => e.targetEpoch ≠ epoch user ∨
    some e.limitBytes ≠ limit) (fun old e => mergeOrigin iso old (evidenceOrigin e)), horigin]
  cases user.sharedQuotaEvidence.get? source with
  | none => rfl
  | some e =>
    by_cases hskip : e.targetEpoch ≠ epoch user ∨ some e.limitBytes ≠ limit
    · have hnot : ¬ (e.targetEpoch = epoch user ∧ some e.limitBytes = limit) := by tauto
      simp only [hskip, if_true, Option.filter_some, hnot, decide_false,
        Bool.false_eq_true, if_false]
      rfl
    · have hboth : e.targetEpoch = epoch user ∧ some e.limitBytes = limit := by tauto
      rw [Option.filter_some, if_pos (by simpa using hboth)]
      exact if_neg hskip

theorem get?_retire (user : User) (source : String) :
    (retire user).get? source = ((user.sharedQuotaEvidence.get? source).map Evidence.sourceEpoch).or
      (((user.replicatedTrafficOrigins.get? source).map Origin.epoch).or
        (user.sharedQuotaRetiredSources.get? source)) := by
  rw [retire, Dict.get?_foldl_set_entries, Dict.get?_foldl_set_entries]

end Tables

section Merging

variable {previous incoming : Origin}

theorem mergeOrigin_cases (iso : String → Option Stamp) (previous : Option Origin)
    (incoming : Origin) :
    mergeOrigin iso previous incoming = incoming ∨
    previous = some (mergeOrigin iso previous incoming) := by
  unfold mergeOrigin
  cases previous with
  | none => exact .inl rfl
  | some previous =>
    dsimp only
    split
    · split
      · exact .inl rfl
      · exact .inr rfl
    · split
      · exact .inl rfl
      · exact .inr rfl

theorem mergeOrigin_advanced (h : advanced iso previous.epoch incoming.epoch = true) :
    mergeOrigin iso (some previous) incoming = incoming := by
  simp [mergeOrigin, ne_of_advanced h, h]

theorem mergeOrigin_kept (hne : previous.epoch ≠ incoming.epoch)
    (h : advanced iso previous.epoch incoming.epoch = false) :
    mergeOrigin iso (some previous) incoming = previous := by
  simp [mergeOrigin, hne, h]

end Merging

section Observations

structure Observed (iso : String → Option Stamp) (user : User) (account : Account)
    (sourceNode : String) (item : Update) (identity : String) : Prop where
  digest : account.identityDigest = some identity ∧ identity = item.source.identityDigest
  limit : account.trafficLimitBytes = some item.source.limitBytes
  counter : item.source.nativeTotalBytes ≤ maxBytes
  target : epoch user = item.expectedTargetEpoch
  token : item.source.epoch = item.source.epochToken
  readmitted : readmitted iso (user.sharedQuotaRetiredSources.get? sourceNode)
    item.source.epoch = true
  previous : checkPrevious iso (user.sharedQuotaEvidence.get? sourceNode) identity
    item.source = .ok ()

/-- An accepted update stores its evidence, or retires what there was when the source has left the
cycle. -/
theorem observe_ok {user user' : User} {account : Account} {sourceNode observedAt : String}
    {item : Update} (h : observe iso user account sourceNode observedAt item = .ok user') :
    ∃ identity, Observed iso user account sourceNode item identity ∧
      (sameCycle (epoch user) item.source.epoch = true ∧
        user' = { user with
          sharedQuotaEvidence := user.sharedQuotaEvidence.set sourceNode
            (Evidence.mk item.source.userId identity item.source.limitBytes
              item.source.nativeTotalBytes item.source.epoch (epoch user) observedAt) } ∨
      sameCycle (epoch user) item.source.epoch = false ∧
        ∃ previous, user.sharedQuotaEvidence.get? sourceNode = some previous ∧
          previous.sourceEpoch ≠ item.source.epoch ∧
          user' = { user with
            sharedQuotaRetiredSources :=
              user.sharedQuotaRetiredSources.set sourceNode previous.sourceEpoch
            sharedQuotaEvidence := user.sharedQuotaEvidence.erase sourceNode }) := by
  obtain ⟨identity, hidentity, h⟩ := bind_eq_ok h
  obtain ⟨_, hsame, h⟩ := bind_eq_ok h
  obtain ⟨_, hlimit, h⟩ := bind_eq_ok h
  obtain ⟨_, hcounter, h⟩ := bind_eq_ok h
  obtain ⟨_, _, h⟩ := bind_eq_ok h
  obtain ⟨_, htarget, h⟩ := bind_eq_ok h
  obtain ⟨_, _, h⟩ := bind_eq_ok h
  obtain ⟨_, htoken, h⟩ := bind_eq_ok h
  obtain ⟨_, hreadmitted, h⟩ := bind_eq_ok h
  obtain ⟨_, hprevious, h⟩ := bind_eq_ok h
  have hdigest : account.identityDigest = some identity := by
    unfold Account.identity at hidentity
    split at hidentity
    next digest hdigest =>
      cases hidentity
      exact hdigest
    · cases hidentity
  refine ⟨identity, ⟨⟨hdigest, of_require hsame⟩, (of_require hlimit).2, of_require hcounter,
    of_require htarget, of_require htoken, of_require hreadmitted, hprevious⟩, ?_⟩
  split at h
  next hcycle =>
    cases h
    exact .inl ⟨hcycle, rfl⟩
  next hcycle =>
    split at h
    next previous hget =>
      obtain ⟨_, hne, h⟩ := bind_eq_ok h
      cases h
      exact .inr ⟨by simpa using hcycle, previous, hget, of_require hne, rfl⟩
    · cases h

theorem checkPrevious_iff {previous : Evidence} {identity : String} {source : Observation} :
    checkPrevious iso (some previous) identity source = .ok () ↔
    previous.sourceUserId = source.userId ∧
      previous.identityDigest = identity ∧
      (previous.sourceEpoch = source.epoch ∧ previous.nativeTotalBytes ≤ source.nativeTotalBytes ∨
        advanced iso previous.sourceEpoch source.epoch = true) := by
  simp only [checkPrevious]
  by_cases huser : previous.sourceUserId = source.userId
  · by_cases hidentity : previous.identityDigest = identity
    · simp only [require, huser, hidentity, if_true, ok_bind, true_and]
      by_cases hepoch : previous.sourceEpoch = source.epoch
      · have hnot : advanced iso previous.sourceEpoch source.epoch = false := by
          by_contra h
          exact ne_of_advanced (by simpa using h) hepoch
        rw [hepoch] at hnot
        by_cases hle : previous.nativeTotalBytes ≤ source.nativeTotalBytes <;>
          simp [hepoch, hle, hnot]
      · by_cases hadv : advanced iso previous.sourceEpoch source.epoch = true <;>
          simp [hepoch, hadv]
    · simp [require, huser, hidentity]
  · simp [require, huser]

end Observations

section Exports

def exportedOrigin (iso : String → Option Stamp) (user : User) (source : String) : Option Origin :=
  match (user.sharedQuotaEvidence.get? source).filter (fun e => e.targetEpoch = epoch user) with
  | some e => some (mergeOrigin iso (user.replicatedTrafficOrigins.get? source) (evidenceOrigin e))
  | none => user.replicatedTrafficOrigins.get? source

def ownOrigin (user : User) : Origin := ⟨user.upload, user.download, epoch user⟩

theorem exportOrigins_ok {user : User} {localNode : String} {origins : Dict String Origin}
    (h : exportOrigins iso user localNode = .ok origins) (source : String) :
    origins.get? source =
      if source = localNode then
        if user.upload ≠ 0 ∨ user.download ≠ 0 ∨ user.sharedQuotaResetVersion ≠ 0 then
          some (ownOrigin user)
        else none
      else exportedOrigin iso user source := by
  obtain ⟨_, _, h⟩ := bind_eq_ok h
  obtain ⟨_, _, h⟩ := bind_eq_ok h
  obtain ⟨_, _, h⟩ := bind_eq_ok h
  cases h
  have hmerged : (user.sharedQuotaEvidence.entries.foldl (fun (result : Dict String Origin) e =>
      if e.2.targetEpoch ≠ epoch user then result
      else result.set e.1 (mergeOrigin iso (result.get? e.1) (evidenceOrigin e.2)))
      user.replicatedTrafficOrigins).get? source = exportedOrigin iso user source := by
    rw [Dict.get?_foldl_update _ _ (fun e : Evidence => e.targetEpoch ≠ epoch user)
      (fun old e => mergeOrigin iso old (evidenceOrigin e)), exportedOrigin]
    cases user.sharedQuotaEvidence.get? source with
    | none => rfl
    | some e => by_cases htarget : e.targetEpoch = epoch user <;> simp [Option.filter_some, htarget]
  by_cases hown : user.upload ≠ 0 ∨ user.download ≠ 0 ∨ user.sharedQuotaResetVersion ≠ 0
  · rw [if_pos hown, if_pos hown, Dict.get?_set, hmerged]
    rfl
  · rw [if_neg hown, if_neg hown, Dict.get?_erase, hmerged]

end Exports

section Imports

structure Imports (iso : String → Option Stamp) (localNode : String)
    (origins : String → Option Origin) (user user' : User) : Prop where
  rest : user' = { user with replicatedTrafficOrigins := user'.replicatedTrafficOrigins }
  own : ∀ r, origins localNode = some r → Origin.total r ≤ user.upload + user.download
  admitted : ∀ s r, s ≠ localNode → origins s = some r → sameCycle (epoch user) r.epoch = true ∧
    readmitted iso (user.sharedQuotaRetiredSources.get? s) r.epoch = true
  merged : ∀ s, user'.replicatedTrafficOrigins.get? s =
    match if s = localNode then none else origins s with
    | some r => some (mergeOrigin iso (user.replicatedTrafficOrigins.get? s) r)
    | none => user.replicatedTrafficOrigins.get? s

variable {localNode : String} {user user' : User}

theorem importOrigin_ok {source : String} {record : Origin}
    (h : importOrigin iso localNode user (source, record) = .ok user') :
    source = localNode ∧ Origin.total record ≤ user.upload + user.download ∧ user' = user ∨
    source ≠ localNode ∧ sameCycle (epoch user) record.epoch = true ∧
      readmitted iso (user.sharedQuotaRetiredSources.get? source) record.epoch = true ∧
      user' = { user with
        replicatedTrafficOrigins := user.replicatedTrafficOrigins.set source
          (mergeOrigin iso (user.replicatedTrafficOrigins.get? source) record) } := by
  unfold importOrigin at h
  dsimp only at h
  split at h
  next hlocal =>
    obtain ⟨_, hown, h⟩ := bind_eq_ok h
    cases h
    exact .inl ⟨hlocal, of_require hown, rfl⟩
  next hother =>
    obtain ⟨_, hcycle, h⟩ := bind_eq_ok h
    obtain ⟨_, hreadmitted, h⟩ := bind_eq_ok h
    cases h
    exact .inr ⟨hother, of_require hcycle, of_require hreadmitted, rfl⟩

theorem imports_of_loop {entries : List (String × Origin)} (hnodup : (entries.map Prod.fst).Nodup)
    (h : importEach iso localNode user entries = (user', .ok ())) :
    Imports iso localNode (fun s => entries.lookup s) user user' := by
  induction entries generalizing user with
  | nil =>
    cases h
    exact ⟨rfl, by simp, by simp, by simp⟩
  | cons entry entries ih =>
    obtain ⟨source, record⟩ := entry
    obtain ⟨middle, hentry, hrest⟩ :
        ∃ middle, importOrigin iso localNode user (source, record) = .ok middle ∧
        importEach iso localNode middle entries = (user', .ok ()) := by
      rw [importEach] at h
      split at h
      · cases h
      next middle hentry => exact ⟨middle, hentry, h⟩
    rw [List.map_cons, List.nodup_cons] at hnodup
    have hlookup : entries.lookup source = none := Dict.lookup_eq_none.mpr hnodup.1
    have hne : ∀ s, s ≠ source → List.lookup s ((source, record) :: entries) =
        entries.lookup s := by
      intro s hs
      have hb : (s == source) = false := by simpa using hs
      simp [List.lookup_cons, hb]
    have hi := ih hnodup.2 hrest
    obtain ⟨rfl, hown, rfl⟩ | ⟨hother, hcycle, hreadmitted, rfl⟩ := importOrigin_ok hentry
    · refine ⟨hi.rest, ?_, ?_, ?_⟩
      · rintro r hr
        rw [List.lookup_cons_self, Option.some.injEq] at hr
        exact hr ▸ hown
      · intro s r hs hr
        exact hi.admitted s r hs (by rwa [hne s hs] at hr)
      · intro s
        rw [hi.merged s]
        by_cases hs : s = source
        · rw [if_pos hs, if_pos hs]
        · rw [if_neg hs, if_neg hs, hne s hs]
    · refine ⟨?_, ?_, ?_, ?_⟩
      · exact hi.rest
      · intro r hr
        exact hi.own r (by rwa [hne localNode (Ne.symm hother)] at hr)
      · intro s r hs hr
        by_cases hsource : s = source
        · subst hsource
          rw [List.lookup_cons_self, Option.some.injEq] at hr
          exact hr ▸ ⟨hcycle, hreadmitted⟩
        · exact hi.admitted s r hs (by rwa [hne s hsource] at hr)
      · intro s
        rw [hi.merged s]
        by_cases hs : s = source
        · subst hs
          rw [if_neg hother, if_neg hother, hlookup, List.lookup_cons_self]
          rw [Dict.get?_set, if_pos rfl]
        · rw [hne s hs, Dict.get?_set, if_neg hs]

theorem importOrigins_ok {origins : Dict String Origin} {cycleStart : Option Int}
    {manualResetAt : Int} {sourceEpoch : Option Epoch}
    (h : importOrigins iso user origins localNode cycleStart manualResetAt sourceEpoch =
      (user', .ok ())) :
    ∃ base merged, Imports iso localNode origins.get? base merged ∧
      user' = { merged with nativeAccountingVersion := some 2 } ∧
      validOrigins origins = true ∧ validOrigins merged.replicatedTrafficOrigins = true ∧
      (sameCycle (epoch user) (incomingEpoch cycleStart manualResetAt sourceEpoch) = true ∧
        base = user ∨
        sameCycle (epoch user) (incomingEpoch cycleStart manualResetAt sourceEpoch) = false ∧
        blank user = true ∧
          base = adopt user (incomingEpoch cycleStart manualResetAt sourceEpoch) cycleStart) := by
  simp only [importOrigins] at h
  split at h
  · cases h
  next _ himportable =>
    split at h
    · cases h
    next merged hloop =>
      split at h
      · cases h
      next _ hstored =>
        cases h
        obtain ⟨_, _, hchecks⟩ := bind_eq_ok himportable
        obtain ⟨_, hvalid, hchecks⟩ := bind_eq_ok hchecks
        obtain ⟨_, _, hcycle⟩ := bind_eq_ok hchecks
        refine ⟨_, merged, imports_of_loop origins.nodup hloop, rfl, of_require hvalid,
          of_require hstored, ?_⟩
        have hcycle := of_require hcycle
        by_cases hsame : sameCycle (epoch user)
          (incomingEpoch cycleStart manualResetAt sourceEpoch) = true
        · exact .inl ⟨hsame, if_pos hsame⟩
        · refine .inr ⟨by simpa using hsame, ?_, if_neg hsame⟩
          simpa [hsame] using hcycle

end Imports

end NodeManager.PeerRecords
