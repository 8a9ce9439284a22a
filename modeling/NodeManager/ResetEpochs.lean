import NodeManager.PeerRecords
import NodeManager.ResetHistory
import NodeManager.RetiredSources

namespace NodeManager.ResetEpochs

open Dictionary EpochOrder Outcomes PeerRecords ResetHistory Runs SharedQuota TrafficRecords
  TrafficResets TrafficRuns
open RetiredSources (known mergeOrigin_later not_advanced_of_later)

variable {iso : String → Option Stamp}

section Peers

/-- All that the record has of the source, tombstone included, is from these epochs. -/
def Behind (earlier : List Epoch) (user : User) (source : String) : Prop :=
  ∀ x ∈ known user source, x ∈ earlier

structure Fitting (user : User) (account : Account) (node : String) (item : Update) : Prop where
  identity : account.identityDigest = some item.source.identityDigest
  limit : account.trafficLimitBytes = some item.source.limitBytes ∧ 0 < item.source.limitBytes
  counter : item.source.nativeTotalBytes ≤ maxBytes
  proven : nativeAccountingProven user = true
  target : epoch user = item.expectedTargetEpoch
  token : item.source.epoch = item.source.epochToken
  room : node ∈ user.sharedQuotaEvidence.keys ∨ user.sharedQuotaEvidence.entries.length < 8
  previous : ∀ p, user.sharedQuotaEvidence.get? node = some p →
    p.sourceUserId = item.source.userId ∧ p.identityDigest = item.source.identityDigest

structure Storable (user : User) (source : String) (record : Origin) : Prop where
  proven : nativeAccountingProven user = true
  record : validOrigin source record = true
  stored : validOrigins user.replicatedTrafficOrigins = true
  room : source ∈ user.replicatedTrafficOrigins.keys ∨
    user.replicatedTrafficOrigins.entries.length < 8

/-- What peers do with an epoch of a source of which they have earlier ones. They accept its
evidence and its origin, and then count nothing that is from before. The peer must be in the cycle
of this epoch, or have evidence of the source that is withdrawn, and no origin. -/
structure Recognises (iso : String → Option Stamp) (earlier : List Epoch) (b : Epoch) : Prop where
  advanced : ∀ a ∈ earlier, advanced iso a b = true
  accepts : ∀ user account node observedAt item, item.source.epoch = b → Behind earlier user node →
    Fitting user account node item →
    sameCycle (epoch user) b = true ∨ node ∈ user.sharedQuotaEvidence.keys →
    ∃ user', observe iso user account node observedAt item = .ok user'
  imports : ∀ user source record localNode cycleStart manualResetAt, record.epoch = b →
    source ≠ localNode → Behind earlier user source → Storable user source record →
    sameCycle (epoch user) b = true →
    ∃ user', importOrigins iso user (Dict.empty.set source record) localNode cycleStart
    manualResetAt
      (some b) = (user', .ok ())
  observed : ∀ user user' account node observedAt item,
    observe iso user account node observedAt item = .ok user' → item.source.epoch = b →
    sameCycle (epoch user) b = true ∨ node ∉ user.replicatedTrafficOrigins.keys →
    ∀ r, (peerOrigins iso user' account.trafficLimitBytes).get? node = some r →
      SharedQuota.advanced iso r.epoch b = false
  imported :
    ∀ localNode history user' origins cycleStart manualResetAt sourceEpoch source record limit,
    importOrigins iso (run (RetiredSources.World.next iso localNode) history
    (.start {})).user origins
      localNode cycleStart manualResetAt sourceEpoch = (user', .ok ()) →
    source ≠ localNode → origins.get? source = some record → record.epoch = b →
    ∀ r, (peerOrigins iso user' limit).get? source = some r →
    SharedQuota.advanced iso r.epoch b = false

variable {a b : Epoch} {record : Origin} {user user' : User} {account : Account}

theorem readmitted_of_advanced {retired : Option Epoch}
    (h : ∀ e, retired = some e → advanced iso e b = true) : readmitted iso retired b = true := by
  cases retired with
  | none => rfl
  | some e => simp [readmitted, h e rfl, ne_of_advanced (h e rfl)]

theorem Fitting.accepted {node : String} {item : Update} (h : Fitting user account node item)
    (hbehind : ∀ x ∈ known user node, advanced iso x item.source.epoch = true)
    (hreach : sameCycle (epoch user) item.source.epoch = true ∨
      node ∈ user.sharedQuotaEvidence.keys)
    (observedAt : String) : ∃ user', observe iso user account node observedAt item = .ok user' := by
  have hretired : readmitted iso (user.sharedQuotaRetiredSources.get? node)
    item.source.epoch = true :=
    readmitted_of_advanced (fun t ht => hbehind t (by simp [known, ht]))
  have hevidence : ∀ p, user.sharedQuotaEvidence.get? node = some p →
      advanced iso p.sourceEpoch item.source.epoch = true :=
      fun p hp => hbehind _ (by simp [known, hp])
  have hcheck : checkPrevious iso (user.sharedQuotaEvidence.get? node) item.source.identityDigest
      item.source = .ok () := by
    cases hp : user.sharedQuotaEvidence.get? node with
    | none => rfl
    | some p =>
      exact checkPrevious_iff.mpr ⟨(h.previous p hp).1, (h.previous p hp).2, .inr (hevidence p hp)⟩
  simp only [observe, Account.identity, h.identity, ok_bind, require, h.limit.1, Option.any_some,
    h.limit.2, decide_true, h.counter, h.proven, h.target, ← h.token, h.room, hretired,
    hcheck, if_true, and_self]
  split
  · exact ⟨_, rfl⟩
  next hcycle =>
    rw [← h.target] at hcycle
    obtain ⟨p, hp⟩ := Dict.mem_keys_iff.mp (hreach.resolve_left hcycle)
    rw [hp]
    dsimp only
    rw [if_pos (ne_of_advanced (hevidence p hp))]
    exact ⟨_, rfl⟩

theorem Storable.valid {source : String} (h : Storable user source record) :
    validOrigins (user.replicatedTrafficOrigins.set source
      (mergeOrigin iso (user.replicatedTrafficOrigins.get? source) record)) = true := by
  have hstored := h.stored
  simp only [validOrigins, Bool.and_eq_true, decide_eq_true_eq, List.all_eq_true] at hstored ⊢
  refine ⟨?_, ?_⟩
  · by_cases hmem : source ∈ user.replicatedTrafficOrigins.keys
    · have hkeys := congrArg List.length (Dict.keys_set_of_mem hmem
        (mergeOrigin iso (user.replicatedTrafficOrigins.get? source) record))
      rw [Dict.keys, Dict.keys, List.length_map, List.length_map] at hkeys
      exact hkeys.trans_le hstored.1
    · rw [Dict.entries_set_of_not_mem hmem, List.length_append]
      exact h.room.resolve_left hmem
  rintro ⟨s, r⟩ hr
  have hvalid : ∀ s r, user.replicatedTrafficOrigins.get? s = some r → validOrigin s r = true :=
    fun s r hr => hstored.2 (s, r) (Dict.mem_entries_iff.mpr hr)
  rw [Dict.mem_entries_iff, Dict.get?_set] at hr
  split at hr
  next hs =>
    subst hs
    cases hr
    obtain hmerge | hmerge := mergeOrigin_cases iso (user.replicatedTrafficOrigins.get? s) record
    · exact hmerge.symm ▸ h.record
    · exact hvalid s _ hmerge
  · exact hvalid s r hr

theorem Storable.accepted {source localNode : String} (h : Storable user source record)
    (hlocal : source ≠ localNode) (hbehind : ∀ x ∈ known user source,
      advanced iso x record.epoch = true)
    (hcycle : sameCycle (epoch user) record.epoch = true) (cycleStart : Option Int)
    (manualResetAt : Int) :
    ∃ user', importOrigins iso user (Dict.empty.set source record) localNode cycleStart
    manualResetAt
      (some record.epoch) = (user', .ok ()) := by
  have hentries : (Dict.empty.set source record : Dict String Origin).entries =
    [(source, record)] :=
    Dict.entries_set_of_not_mem List.not_mem_nil record
  have hepoch : validEpoch record.epoch = true := by
    have hrecord := h.record
    simp only [validOrigin, Bool.and_eq_true] at hrecord
    exact hrecord.2
  have hretired : readmitted iso (user.sharedQuotaRetiredSources.get? source) record.epoch = true :=
    readmitted_of_advanced (fun t ht => hbehind t (by simp [known, ht]))
  have hone : validOrigins (Dict.empty.set source record) = true := by
    simp [validOrigins, hentries, h.record]
  have himportable : importable user (Dict.empty.set source record) record.epoch = .ok () := by
    simp only [importable, validateOrigins, require, h.proven, hone, hepoch, hcycle,
      Bool.true_or, if_true, ok_bind]
  have hstore : importOrigin iso localNode user (source, record) = .ok { user with
      replicatedTrafficOrigins := user.replicatedTrafficOrigins.set source
        (mergeOrigin iso (user.replicatedTrafficOrigins.get? source) record) } := by
    simp only [importOrigin, if_neg hlocal, require, hcycle, hretired, if_true, ok_bind]
    rfl
  simp only [importOrigins, incomingEpoch, Option.getD_some, himportable, hcycle, if_true, hentries,
    importEach, hstore, validateOrigins, h.valid, require]
  exact ⟨_, rfl⟩

theorem counted_observed {node observedAt : String} {item : Update}
    (hobserve : observe iso user account node observedAt item = .ok user')
    (hcycle : sameCycle (epoch user) item.source.epoch = true ∨
      node ∉ user.replicatedTrafficOrigins.keys)
    {r : Origin} (hr : (peerOrigins iso user' account.trafficLimitBytes).get? node = some r) :
    advanced iso r.epoch item.source.epoch = false := by
  obtain ⟨identity, hobserved, ⟨_, rfl⟩ | ⟨hother, previous, _, _, rfl⟩⟩ := observe_ok hobserve
  · rw [get?_peerOrigins] at hr
    have hcurrent : ∀ e : Evidence, e.targetEpoch = epoch user →
        some e.limitBytes = account.trafficLimitBytes →
        currentEvidence { user with sharedQuotaEvidence := user.sharedQuotaEvidence.set node e }
          account.trafficLimitBytes node = some e := by
      intro e htarget hlimit
      rw [currentEvidence, Dict.get?_set, if_pos rfl, Option.filter_some]
      exact if_pos (decide_eq_true ⟨htarget, hlimit⟩)
    rw [hcurrent _ rfl hobserved.limit.symm] at hr
    cases hr
    exact (mergeOrigin_later iso _ (evidenceOrigin _)).1
  · rw [get?_peerOrigins] at hr
    have hnone : currentEvidence { user with
        sharedQuotaRetiredSources := user.sharedQuotaRetiredSources.set node previous.sourceEpoch
        sharedQuotaEvidence := user.sharedQuotaEvidence.erase node } account.trafficLimitBytes
          node = none := by
      rw [currentEvidence, Dict.get?_erase, if_pos rfl]
      rfl
    rw [hnone] at hr
    have horigin := (Option.filter_eq_some_iff.mp hr).1
    exact absurd (Dict.mem_keys_iff.mpr ⟨r, horigin⟩) (hcycle.resolve_left (by simp [hother]))

def Cycled (user : User) : Prop :=
  ∀ s r, user.replicatedTrafficOrigins.get? s = some r → sameCycle (epoch user) r.epoch = true

theorem Cycled.imported (hcycled : Cycled user) {origins : Dict String Origin} {localNode : String}
    {cycleStart : Option Int} {manualResetAt : Int} {sourceEpoch : Option Epoch}
    (himport : importOrigins iso user origins localNode cycleStart manualResetAt sourceEpoch =
      (user', .ok ())) : Cycled user' := by
  obtain ⟨base, merged, himports, rfl, -, -, hbase⟩ := importOrigins_ok himport
  have hold : Cycled base := by
    obtain ⟨-, rfl⟩ | ⟨-, hblank, rfl⟩ := hbase
    · exact hcycled
    intro s old hget
    have hempty : user.replicatedTrafficOrigins.entries = [] := by
      simp only [blank, Bool.and_eq_true, List.isEmpty_iff] at hblank
      exact hblank.1.1.1.1.2
    have hmem := Dict.mem_entries_iff.mpr hget
    simp [adopt, hempty] at hmem
  have hepoch : epoch { merged with nativeAccountingVersion := some 2 } = epoch base := by
    rw [himports.rest]
    rfl
  intro s r hr
  rw [hepoch]
  have hr := (himports.merged s).symm.trans hr
  split at hr
  next record hrecord =>
    cases hr
    obtain hmerge | hmerge := mergeOrigin_cases iso (base.replicatedTrafficOrigins.get? s) record
    · rw [hmerge]
      split_ifs at hrecord with hs
      exact (himports.admitted s record hs hrecord).1
    · exact hold s _ hmerge
  · exact hold s r hr

theorem cycled_next {localNode : String} {w : RetiredSources.World} (hw : Cycled w.user)
    (step : RetiredSources.Step) : Cycled (w.next iso localNode step).user := by
  cases hraised : (step.apply iso localNode w.user).2 with
  | error e => rwa [RetiredSources.next_of_error hraised]
  | ok _ =>
    obtain ⟨user', happly⟩ : ∃ user', step.apply iso localNode w.user = (user', .ok ()) :=
      ⟨_, Prod.ext rfl hraised⟩
    rw [RetiredSources.World.next, happly]
    have hcleared : ∀ {user'}, RetiredSources.Cleared w.user user' → Cycled user' := by
      intro user' hclear s r hr
      rw [hclear.origins] at hr
      cases hr
    cases step with
    | importOrigins origins cycleStart manualResetAt sourceEpoch rest =>
      exact hw.imported (RetiredSources.replicate_ok happly)
    | observe account node observedAt item =>
      obtain ⟨-, v, -, -, rfl⟩ | ⟨-, p, -, rfl⟩ :=
        RetiredSources.observe_cases (mapError_eq_ok (RetiredSources.staged_ok happly))
      · exact hw
      · exact hw
    | resetTraffic start now =>
      exact hcleared (RetiredSources.cleared_cycleStamp (RetiredSources.staged_ok happly))
    | resetUserTraffic key now =>
      exact hcleared (RetiredSources.cleared_renewalStamp (RetiredSources.staged_ok happly))

theorem cycled_run (iso : String → Option Stamp) (localNode : String)
    (history : List RetiredSources.Step) :
    Cycled (run (RetiredSources.World.next iso localNode) history (.start {})).user := by
  have hstart : Cycled (RetiredSources.World.start {}).user := by
    intro s r hr
    cases hr
  exact @run_preserves _ _ _ (fun w : RetiredSources.World => Cycled w.user)
    (fun _ step hw => cycled_next hw step) history _ hstart

theorem counted_imported {origins : Dict String Origin} {localNode : String}
    {cycleStart : Option Int} {manualResetAt : Int} {sourceEpoch : Option Epoch}
    (hcycled : Cycled user) (himport : importOrigins iso user origins localNode cycleStart
      manualResetAt sourceEpoch =
      (user', .ok ())) {source : String} (hsource : source ≠ localNode)
    (hrecord : origins.get? source = some record) {limit : Option Nat} {r : Origin}
    (hr : (peerOrigins iso user' limit).get? source = some r) :
    advanced iso r.epoch record.epoch = false := by
  obtain ⟨-, -, hmerged, -⟩ := RetiredSources.importOrigins_parts himport
  have hstored := (hmerged source record hsource hrecord).2
  have hnot := (mergeOrigin_later iso (user.replicatedTrafficOrigins.get? source) record).1
  have hcurrent : currentOrigin user' source =
      some (mergeOrigin iso (user.replicatedTrafficOrigins.get? source) record) := by
    rw [currentOrigin, hstored, Option.filter_some]
    exact if_pos (hcycled.imported himport source _ hstored)
  rw [get?_peerOrigins, hcurrent] at hr
  split at hr
  next e _ =>
    cases hr
    exact not_advanced_of_later ((mergeOrigin_later iso _ (evidenceOrigin e)).2 _ rfl) hnot
  · cases hr
    exact hnot

theorem recognises {earlier : List Epoch} (h : ∀ a ∈ earlier, advanced iso a b = true) :
    Recognises iso earlier b where
  advanced := h
  accepts := by
    rintro user account node observedAt item rfl hbehind hfitting hreach
    exact hfitting.accepted (fun x hx => h x (hbehind x hx)) hreach observedAt
  imports := by
    rintro user source record localNode cycleStart manualResetAt rfl hlocal hbehind hstorable hcycle
    exact hstorable.accepted hlocal (fun x hx => h x (hbehind x hx)) hcycle cycleStart manualResetAt
  observed := by
    rintro user user' account node observedAt item hobserve rfl hcycle r hr
    exact counted_observed hobserve hcycle hr
  imported := by
    rintro localNode history user' origins _ _ _ source record limit himport hsource
      hrecord rfl r hr
    exact counted_imported (cycled_run iso localNode history) himport hsource hrecord hr

end Peers

section Resets

def Step.now : Step → Int
  | .resetTraffic _ _ _ now _ => now
  | .resetUserTraffic _ _ now _ => now
  | _ => 0

def Resets (userId : String) (w : World) (step : Step) : Prop :=
  step.isReset = true ∧ resetVersion w userId < resetVersion (w.next step) userId

instance (userId : String) (w : World) (step : Step) : Decidable (Resets userId w step) :=
  inferInstanceAs (Decidable (_ ∧ _))

def epochs (userId : String) : List Step → World → List Epoch
  | [], w => [epoch (w.record userId)]
  | step :: steps, w => epoch (w.record userId) :: epochs userId steps (w.next step)

/-- A renewal is dated after the one before. A cycle starts after the one before in the numbers that
are compared, or the user was not reset manually. -/
def Dated (iso : String → Option Stamp) (userId : String) (w : World) : Step → Prop
  | .resetTraffic _ (some c) _ _ _ => number (epoch (w.record userId)).cycleStart < c.key ∨
    number (epoch (w.record userId)).manualResetAt ≤ 0
  | .resetUserTraffic _ (some key) _ _ =>
    renewed iso (w.record userId).lastRenewalResetKey (some key) = true
  | _ => True

variable {userId : String} {w : World} {step : Step}

section Epochs

variable {e : Epoch} {version : Int}

theorem advanced_cycle {key : Int} (hkey : e.cycleStart.get.getD (-1) < key)
    (hversion : number e.version < version) :
    advanced iso e ⟨.value key, .value 0, e.renewalResetKey, .value version⟩ = true ↔
      number e.cycleStart < key ∨ number e.manualResetAt ≤ 0 := by
  have hcycle : number e.cycleStart ≤ key := by
    unfold number
    cases hget : e.cycleStart.get <;> simp [hget] at hkey ⊢ <;> omega
  have hvalue : ∀ n : Int, number (.value n) = n := fun _ => rfl
  rw [advanced_iff]
  simp only [hvalue, renewed_irrefl, Bool.false_eq_true, false_or, true_and]
  omega

theorem advanced_manual {now : Int} (hnow : number e.manualResetAt < now)
    (hversion : number e.version < version) :
    advanced iso e ⟨e.cycleStart, .value now, e.renewalResetKey, .value version⟩ = true := by
  refine advanced_iff.mpr (.inr ⟨rfl, .inr ⟨rfl, hnow.le, hversion.le, .inl hnow.ne⟩⟩)

theorem advanced_renewal {key : String} (hkey : e.renewalResetKey.get ≠ some key) :
    advanced iso e ⟨e.cycleStart, e.manualResetAt, .value key, .value version⟩ = true ↔
      renewed iso e.renewalResetKey.get (some key) = true := by
  rw [advanced_iff]
  have hother : ¬ e.renewalResetKey.get = (Field.value key).get := hkey
  simp only [hother, false_and, or_false, true_and, lt_self_iff_false, false_or]
  rfl

end Epochs

theorem record_of_resets (h : Resets userId w step) (hstore : userId ∈ w.store.users.keys) :
    (∃ start policies now enforced user, step = .resetTraffic userId start policies now enforced ∧
      alreadyReset (w.record userId) start = false ∧ cleared (w.record userId) = .ok user ∧
      (w.next step).record userId = cycleStamp start now user) ∨
    (∃ key now enforced user, step = .resetUserTraffic userId key now enforced ∧
      ¬ (key.isSome ∧ (w.record userId).lastRenewalResetKey = key) ∧
      cleared (w.record userId) = .ok user ∧
      (w.next step).record userId = renewalStamp key now user) := by
  obtain ⟨hreset, hversion⟩ := h
  have hfound : (w.store.users.get? userId).getD {} = w.record userId := by
    obtain ⟨user, huser⟩ := Dict.mem_keys_iff.mp hstore
    rw [World.record, UsageRecords.record, huser]
    rfl
  cases step with
  | resetTraffic target start policies now enforced =>
    refine .inl ⟨start, policies, now, enforced, ?_⟩
    simp only [World.next] at hversion ⊢
    cases hresult : resetTraffic target start policies now enforced w.store with
    | error e =>
      rw [hresult] at hversion
      exact absurd hversion (lt_irrefl _)
    | ok result =>
      obtain ⟨store, flag⟩ := result
      rw [hresult] at hversion
      obtain ⟨-, rfl, rfl⟩ | ⟨hnew, rfl, user, hclear, rfl⟩ := resetTraffic_ok hresult
      · exact absurd hversion (lt_irrefl _)
      unfold resetVersion at hversion
      rw [record_set] at hversion
      split at hversion
      next htarget =>
        subst htarget
        rw [hfound] at hnew hclear
        refine ⟨user, rfl, hnew, hclear, ?_⟩
        rw [record_set, if_pos rfl]
      · exact absurd hversion (lt_irrefl _)
  | resetUserTraffic target key now enforced =>
    refine .inr ⟨key, now, enforced, ?_⟩
    simp only [World.next] at hversion ⊢
    obtain ⟨hsame, -⟩ | ⟨user, hnew, hclear, hwritten⟩ :=
      resetUserTraffic_cases true target key now enforced w.store w.history
    · rw [hsame] at hversion
      exact absurd hversion (lt_irrefl _)
    rw [hwritten] at hversion ⊢
    unfold resetVersion at hversion
    rw [record_set] at hversion
    split at hversion
    next htarget =>
      subst htarget
      refine ⟨user, rfl, hnew, hclear, ?_⟩
      rw [record_set, if_pos rfl]
    · exact absurd hversion (lt_irrefl _)
  | _ => cases hreset

theorem mem_keys_of_reset (h : step.isReset = true) (hstore : userId ∈ w.store.users.keys) :
    userId ∈ (w.next step).store.users.keys := by
  cases step with
  | resetTraffic target start policies now enforced =>
    simp only [World.next]
    split
    next result hresult =>
      obtain ⟨-, rfl, -⟩ | ⟨-, -, user, -, rfl⟩ := resetTraffic_ok hresult
      · exact hstore
      · exact Dict.mem_keys_set.mpr (.inr hstore)
    · exact hstore
  | resetUserTraffic target key now enforced =>
    simp only [World.next]
    obtain ⟨hsame, -⟩ | ⟨user, -, -, hwritten⟩ :=
      resetUserTraffic_cases true target key now enforced w.store w.history
    · rwa [hsame]
    · rw [hwritten]
      exact Dict.mem_keys_set.mpr (.inr hstore)
  | _ => cases h

theorem epoch_next (iso : String → Option Stamp) (h : Resets userId w step)
    (hstore : userId ∈ w.store.users.keys) {clock : Int} (hclock : 0 ≤ clock)
    (hmanual : number (epoch (w.record userId)).manualResetAt ≤ clock)
    (hnow : clock < Step.now step) :
    (advanced iso (epoch (w.record userId)) (epoch ((w.next step).record userId)) = true ↔
      Dated iso userId w step) ∧
      number (epoch ((w.next step).record userId)).manualResetAt ≤ Step.now step := by
  have hversion : ∀ version : Nat,
      number (.value (version : Int)) < ((version + 1 : Nat) : Int) := by
    intro version
    simp [number, Field.get]
  obtain ⟨start, policies, now, enforced, user, rfl, hnew, hclear, hrecord⟩ |
      ⟨key, now, enforced, user, rfl, hnew, hclear, hrecord⟩ := record_of_resets h hstore
  · rw [hrecord, cleared_ok hclear]
    cases start with
    | none =>
      refine ⟨iff_of_true ?_ trivial, le_refl now⟩
      exact advanced_manual (hmanual.trans_lt hnow) (hversion _)
    | some c =>
      have hkey : (epoch (w.record userId)).cycleStart.get.getD (-1) < c.key := by
        simpa [alreadyReset, epoch] using hnew
      exact ⟨advanced_cycle hkey (hversion _), (hclock.trans_lt hnow).le⟩
  · rw [hrecord, cleared_ok hclear]
    cases key with
    | none =>
      refine ⟨iff_of_true ?_ trivial, le_refl now⟩
      exact advanced_manual (hmanual.trans_lt hnow) (hversion _)
    | some key =>
      have hkey : (epoch (w.record userId)).renewalResetKey.get ≠ some key := by
        simpa [epoch] using hnew
      refine ⟨(advanced_renewal hkey).trans ?_, hmanual.trans hnow.le⟩
      rw [epoch, Field.get_ofOption]
      rfl

theorem chain_epochs {steps : List Step} {clock : Int} (hstore : userId ∈ w.store.users.keys)
    (hclock : 0 ≤ clock) (hmanual : number (epoch (w.record userId)).manualResetAt ≤ clock)
    (hnow : (clock :: steps.map Step.now).Pairwise (· < ·))
    (hresets : Permitted World.next (Resets userId) steps w) :
    (epochs userId steps w).IsChain (fun a b => advanced iso a b = true) ↔
      Permitted World.next (Dated iso userId) steps w := by
  induction steps generalizing w clock with
  | nil => exact iff_of_true (List.IsChain.singleton _) trivial
  | cons step steps ih =>
    obtain ⟨hreset, hrest⟩ := hresets
    rw [List.map_cons, List.pairwise_cons] at hnow
    obtain ⟨hlater, htail⟩ := hnow
    have hstep := hlater (Step.now step) List.mem_cons_self
    obtain ⟨hadvanced, hmanual'⟩ := epoch_next iso hreset hstore hclock hmanual hstep
    have hchain := ih (mem_keys_of_reset hreset.1 hstore) (hclock.trans hstep.le)
      hmanual' htail hrest
    have hhead : ∃ rest, epochs userId steps (w.next step) =
        epoch ((w.next step).record userId) :: rest := by
      cases steps <;> exact ⟨_, rfl⟩
    obtain ⟨rest, hhead⟩ := hhead
    rw [epochs, hhead, List.isChain_cons_cons, hadvanced, ← hhead, hchain]
    rfl

end Resets

theorem pairwise_iff_split {α : Type} {R : α → α → Prop} {l : List α} :
    l.Pairwise R ↔ ∀ earlier b later, l = earlier ++ b :: later → ∀ a ∈ earlier, R a b := by
  constructor
  · rintro h earlier b later rfl a ha
    exact (List.pairwise_append.mp h).2.2 a ha b List.mem_cons_self
  · intro h
    refine List.pairwise_iff_forall_sublist.mpr (fun {a b} hsub => ?_)
    obtain ⟨front, back, rfl, ha, hb⟩ := List.cons_sublist_iff.mp hsub
    obtain ⟨middle, later, rfl⟩ := List.append_of_mem (List.singleton_sublist.mp hb)
    exact h (front ++ middle) b later (List.append_assoc _ _ _).symm a (List.mem_append_left _ ha)

section Examples

def dates (text : String) : Option Stamp :=
  if text = "2026-12-15T00:00:00+00:00" then some (.aware 15)
  else if text = "2027-01-01T00:00:00+00:00" then some (.aware 32)
  else if text = "2027-02-01T00:00:00+00:00" then some (.aware 63)
  else none

def renew (key : String) (now : Int) : Step := .resetUserTraffic "bob" (some key) now (.ok ())

def dated : List Step :=
  [renew "2027-01-01T00:00:00+00:00" 1000, .resetTraffic "bob" none ["bob"] 2000 (.ok ()),
    .resetTraffic "bob" (some ⟨true, 2500, 2⟩) ["bob"] 3000 (.ok ()),
    renew "2027-02-01T00:00:00+00:00" 4000]

def peer : User :=
  { lastTrafficCycleStart := some 2
    lastManualTrafficResetAt := some 0
    sharedQuotaEvidence := Dict.empty.set "node-1"
      ⟨"bob", "digest", 500, 100, ⟨.value 2, .value 0, .null, .value 1⟩,
        ⟨.value 2, .value 0, .null, .value 0⟩, "t"⟩
    replicatedTrafficOrigins :=
      Dict.empty.set "node-1" ⟨100, 0, ⟨.value 2, .value 0, .null, .value 1⟩⟩ }

def nextCycle : Update :=
  ⟨"bob", ⟨"bob", "digest", 500, 0, ⟨.value 5, .value 0, .null, .value 2⟩,
    ⟨.value 5, .value 0, .null, .value 2⟩⟩, ⟨.value 2, .value 0, .null, .value 0⟩⟩

end Examples

end NodeManager.ResetEpochs
