import NodeManager.CounterPostings

namespace NodeManager.CounterRuns

open CounterPostings Dictionary RuntimeCounters Runs TrafficRecords

/-- The store, the retired instances in the history and, as a record, the acknowledged counters, the
postings, latest first, and what each account was raised by. -/
structure World where
  store : Store
  retiredEpochs : List String := []
  acknowledged : List (String × CounterKey) := []
  postings : List Posting := []
  added : String → Bytes := fun _ => 0

inductive Step
  | offer (snapshot : Snapshot) (authMap historicalAliases : Dict String String)
  /-- A batch of `finalize_retirements`: the core confirms some of it, and the reply may be lost. -/
  | acknowledge (confirmed : List CounterKey) (replied : Bool)
  /-- Other functions write the accounts. -/
  | write (users : Dict String User) (collected : Bool)

def settle (c : Counters) (confirmed : List CounterKey) : Counters :=
  { c with
    rows := c.rows.filterKeys (· ∉ confirmed)
    retirementPending := c.retirementPending.filterKeys (· ∉ confirmed) }

def World.next (step : Step) (w : World) : World :=
  match step with
  | .offer snapshot authMap historicalAliases =>
    match applyCounters w.store w.retiredEpochs snapshot authMap historicalAliases with
    | (.error _, retiredEpochs) => { w with retiredEpochs := retiredEpochs }
    | (.ok (store, new), retiredEpochs) =>
      { w with
        store := store
        retiredEpochs := retiredEpochs
        postings := new ++ w.postings
        added := fun u => w.added u + (bytesOf store.users u - bytesOf w.store.users u) }
  | .acknowledge confirmed replied =>
    match w.store.counters with
    | none => w
    | some c =>
      let keys := confirmed.filter (· ∈ c.retirementPending.keys)
      { w with
        store := if replied then { w.store with counters := some (settle c keys) } else w.store
        acknowledged := keys.map (c.instanceId, ·) ++ w.acknowledged }
  | .write users collected =>
    { w with store := { w.store with users := users, collected := collected } }

/-- No counter is reported again after it was acknowledged. -/
def Allowed (w : World) : Step → Prop
  | .offer snapshot _ _ => ∀ row ∈ snapshot.users, (snapshot.instanceId, row.key) ∉ w.acknowledged
  | _ => True

instance (w : World) (step : Step) : Decidable (Allowed w step) := by
  rcases step <;> (unfold Allowed; infer_instance)

/-- A snapshot of the first version is not from an instance that only the history has as retired,
and reports no credential of which its instance has had a numbered counter acknowledged. -/
def Recognised (w : World) : Step → Prop
  | .offer snapshot _ _ => snapshot.counterVersion = .one →
      (snapshot.instanceId ∈ w.retiredEpochs →
        w.store.counters.map Counters.instanceId = some snapshot.instanceId) ∧
      ∀ row ∈ snapshot.users, (snapshot.instanceId, row.key) ∉
      w.acknowledged.map (fun a => (a.1, a.2.legacy))
  | _ => True

instance (w : World) (step : Step) : Decidable (Recognised w step) := by
  rcases step <;> (unfold Recognised; infer_instance)

structure Exact (w : World) : Prop where
  /-- Each user's account was raised by the growth of the counters while they were the user's. -/
  credited : ∀ u, w.added u = credits w.postings u
  /-- Each posting starts where its counter ended, at zero, or at its own value in the migrating
  snapshot. -/
  chained : Chained w.postings
  /-- The postings that migrate are those of the first snapshot. -/
  migrated : ∀ q earlier, (q :: earlier) <:+ w.postings → q.migrated → ∀ p ∈ earlier, p.migrated
  /-- No byte of a counter is posted twice. -/
  once : ∀ q earlier, (q :: earlier) <:+ w.postings → ∀ p ∈ earlier, p.instanceId = q.instanceId →
    p.key = q.key →
    p.value ≤ q.start
  /-- What is posted between two postings of an instance is of this instance. -/
  replaced : ∀ q later r earlier, (q :: later) <:+ w.postings → (r :: earlier) <:+ later →
    (∃ p ∈ earlier, p.instanceId = q.instanceId) → r.instanceId = q.instanceId

variable {postings : List Posting} {q : Posting} {earlier : List Posting}

theorem once_of_chained (h : Chained postings) (hsuffix : (q :: earlier) <:+ postings) {p : Posting}
    (hp : p ∈ earlier) (hinstance : p.instanceId = q.instanceId) (hkey : p.key = q.key) :
    p.value ≤ q.start := by
  induction postings generalizing q earlier p with
  | nil => simp at hsuffix
  | cons first rest ih =>
    have hrest : Chained rest := fun q earlier hs =>
      h q earlier (hs.trans (List.suffix_cons first rest))
    obtain heq | hsuffix := List.suffix_cons_iff.mp hsuffix
    · obtain ⟨rfl, rfl⟩ := List.cons.inj heq
      have hstart := (h q earlier (List.suffix_refl _)).start
      cases hlast : lastOf earlier q.instanceId q.key with
      | none =>
        rw [lastOf, List.find?_eq_none] at hlast
        exact absurd (by simp [hinstance, hkey]) (hlast p hp)
      | some latest =>
        rw [standing, hlast, Option.some_or] at hstart
        rw [hstart]
        -- `p` is the latest posting of the counter, or one before it
        obtain ⟨hfound, before, after, hsplit, hbefore⟩ := List.find?_eq_some_iff_append.mp hlast
        simp only [decide_eq_true_eq] at hfound
        have hmem : p ∈ before ++ latest :: after := hsplit ▸ hp
        simp only [List.mem_append, List.mem_cons] at hmem
        obtain hmem | rfl | hmem := hmem
        · have hnot := hbefore p hmem
          simp [hinstance, hkey] at hnot
        · exact le_rfl
        have hlatest : (latest :: after) <:+ earlier := ⟨before, hsplit.symm⟩
        exact (ih hrest hlatest hmem (hinstance.trans hfound.1.symm)
          (hkey.trans hfound.2.symm)).trans (hrest latest after hlatest).le
    · exact ih hrest hsuffix hp hinstance hkey

def Grouped (postings : List Posting) : Prop :=
  ∀ q later r earlier, (q :: later) <:+ postings → (r :: earlier) <:+ later →
    (∃ p ∈ earlier, p.instanceId = q.instanceId) → r.instanceId = q.instanceId

def Leads (instanceId : String) (postings : List Posting) : Prop :=
  ∀ q rest, postings = q :: rest → (∃ p ∈ postings, p.instanceId = instanceId) →
    q.instanceId = instanceId

theorem Grouped.cons (h : Grouped postings) (hleads : Leads q.instanceId postings) :
    Grouped (q :: postings) := by
  intro q' later r earlier hq hr hp
  obtain heq | hq := List.suffix_cons_iff.mp hq
  · obtain ⟨rfl, rfl⟩ := List.cons.inj heq
    obtain ⟨p, hp, hinstance⟩ := hp
    cases hlater : later with
    | nil => simp [hlater] at hr
    | cons first rest =>
      have hmem : p ∈ later := hr.subset (List.mem_cons_of_mem r hp)
      have hfirst := hleads first rest hlater ⟨p, hmem, hinstance⟩
      rw [hlater] at hr
      obtain heq | hr := List.suffix_cons_iff.mp hr
      · rw [(List.cons.inj heq).1, hfirst]
      · rw [← hfirst]
        exact h first rest r earlier (hlater ▸ List.suffix_refl _) hr
          ⟨p, hp, hinstance.trans hfirst.symm⟩
  · exact h q' later r earlier hq hr hp

variable {new : List Posting} {instanceId : String}

theorem Grouped.append (h : Grouped postings) (hleads : Leads instanceId postings)
    (hnew : ∀ p ∈ new, p.instanceId = instanceId) :
    Grouped (new ++ postings) ∧ Leads instanceId (new ++ postings) := by
  induction new with
  | nil => exact ⟨h, hleads⟩
  | cons q new ih =>
    obtain ⟨hgrouped, hlead⟩ := ih (fun p hp => hnew p (List.mem_cons_of_mem q hp))
    have hq := hnew q List.mem_cons_self
    refine ⟨hgrouped.cons (hq ▸ hlead), ?_⟩
    rintro q' rest heq -
    obtain ⟨rfl, -⟩ := List.cons.inj heq
    exact hq

structure Fits (w : World) (c : Counters) : Prop where
  books : Books w.acknowledged c.instanceId c.rows w.postings
  pending : ∀ key ∈ c.retirementPending.keys, key.id ≠ ""
  known : ∀ p ∈ w.postings, p.instanceId = c.instanceId ∨ p.instanceId ∈ c.retiredInstances ∨
    p.instanceId ∈ w.retiredEpochs
  leads : Leads c.instanceId w.postings

structure Inv (w : World) : Prop where
  fresh : w.store.counters = none → w.postings = []
  fits : ∀ c, w.store.counters = some c → Fits w c
  credited : ∀ u, w.added u = credits w.postings u
  chained : Chained w.postings
  migrated : ∀ q earlier, (q :: earlier) <:+ w.postings → q.migrated → ∀ p ∈ earlier, p.migrated
  grouped : Grouped w.postings

variable {w : World}

theorem Inv.exact (h : Inv w) : Exact w :=
  ⟨h.credited, h.chained, h.migrated,
    fun _ _ hsuffix _ hp => once_of_chained h.chained hsuffix hp, h.grouped⟩

theorem inv_start (store : Store) (retiredEpochs : List String) (h : store.counters = none) :
    Inv { store := store, retiredEpochs := retiredEpochs } := by
  refine ⟨fun _ => rfl, ?_, fun _ => rfl, ?_, ?_, ?_⟩
  · intro c hc
    cases h.symm.trans hc
  · intro q earlier hsuffix
    simp at hsuffix
  · intro q earlier hsuffix
    simp at hsuffix
  · intro q later r earlier hsuffix
    simp at hsuffix

theorem fits_new {retired : List String} (hnone : ∀ p ∈ w.postings, p.instanceId ≠ instanceId)
    (hknown : ∀ p ∈ w.postings, p.instanceId ∈ retired ∨ p.instanceId ∈ w.retiredEpochs) :
    Fits w { instanceId := instanceId, retiredInstances := retired } := by
  have hempty : ∀ key, ofCredential w.postings instanceId key = [] := by
    intro key
    rw [ofCredential, List.filter_eq_nil_iff]
    intro p hp
    simp [hnone p hp]
  have hlast : ∀ key, lastOf w.postings instanceId key = none := by
    intro key
    rw [lastOf, List.find?_eq_none]
    intro p hp
    simp [hnone p hp]
  refine ⟨⟨?_, ?_, by simp⟩, by simp, fun p hp => .inr (hknown p hp), ?_⟩
  · intro key _ _
    simp [hlast key]
  · intro key _
    simp [hempty key]
  · rintro q rest - ⟨p, hp, hinstance⟩
    exact absurd hinstance (hnone p hp)

variable {snapshot : Snapshot} {authMap historicalAliases : Dict String String}

theorem fits_current (hw : Inv w)
    (hrecognised : Recognised w (.offer snapshot authMap historicalAliases)) {c : Counters}
    (hc : currentCounters w.store.counters w.retiredEpochs snapshot = .ok c) :
    c.instanceId = snapshot.instanceId ∧ Fits w c := by
  unfold currentCounters at hc
  split at hc
  next hnone =>
    cases hc
    refine ⟨rfl, fits_new ?_ ?_⟩ <;> simp [hw.fresh hnone]
  next c₀ hsome =>
    have hfits := hw.fits c₀ hsome
    split at hc
    next hsame =>
      cases hc
      exact ⟨hsame.symm, hfits⟩
    next hother =>
      split at hc
      · cases hc
      next haccepted =>
        cases hc
        refine ⟨rfl, fits_new ?_ ?_⟩
        · intro p hp hinstance
          obtain hcurrent | hretired | hhistory := hfits.known p hp
          · exact hother (hinstance.symm.trans hcurrent)
          · exact haccepted (.inl (hinstance ▸ hretired))
          cases hversion : snapshot.counterVersion with
          | one =>
            have hknown := (hrecognised hversion).1 (hinstance ▸ hhistory)
            rw [hsome] at hknown
            exact hother (Option.some.inj hknown).symm
          | two => exact haccepted (.inr ⟨hversion, hinstance ▸ hhistory⟩)
        · intro p hp
          obtain hcurrent | hretired | hhistory := hfits.known p hp
          · exact .inl (by simp [hcurrent])
          · exact .inl (by simp [hretired])
          · exact .inr hhistory

theorem mem_or_suffix (h : (q :: earlier) <:+ new ++ postings) :
    q ∈ new ∨ (q :: earlier) <:+ postings := by
  induction new with
  | nil => exact .inr h
  | cons p new ih =>
    obtain heq | h := List.suffix_cons_iff.mp h
    · exact .inl (by simp [(List.cons.inj heq).1])
    · exact (ih h).imp (List.mem_cons_of_mem p) id

/-- A numbered counter has no other name, and the name of one without an id is not one of an
acknowledged counter. -/
theorem offered (hallowed : Allowed w (.offer snapshot authMap historicalAliases))
    (hrecognised : Recognised w (.offer snapshot authMap historicalAliases)) {row : Row}
    (hrow : row ∈ snapshot.users) :
    Offered w.acknowledged snapshot.instanceId row.key := by
  intro k hk
  refine ⟨fun heq => hallowed row hrow (heq ▸ hk), fun hlegacy => ?_⟩
  have hversion : snapshot.counterVersion = .one := (snapshot.ids row hrow).mp (hlegacy ▸ rfl)
  exact (hrecognised hversion).2 row hrow (List.mem_map.mpr ⟨_, hk, by rw [hlegacy]⟩)

theorem Inv.offer (hw : Inv w) (hallowed : Allowed w (.offer snapshot authMap historicalAliases))
    (hrecognised : Recognised w (.offer snapshot authMap historicalAliases)) :
    Inv (w.next (.offer snapshot authMap historicalAliases)) := by
  -- what the history knows can only grow
  have hmore : ∀ {retired}, Inv { w with retiredEpochs := retired ++ w.retiredEpochs } := by
    intro retired
    refine ⟨hw.fresh, ?_, hw.credited, hw.chained, hw.migrated, hw.grouped⟩
    intro c hc
    have hfits := hw.fits c hc
    refine ⟨hfits.books, hfits.pending, ?_, hfits.leads⟩
    intro p hp
    obtain hcurrent | hretired | hhistory := hfits.known p hp
    · exact .inl hcurrent
    · exact .inr (.inl hretired)
    · exact .inr (.inr (List.mem_append_right _ hhistory))
  -- the counters `c` come with what is not in the history yet
  have haccepted : ∀ (c : Counters) retired store' new,
      Fits { w with retiredEpochs := retired ++ w.retiredEpochs } c →
      c.instanceId = snapshot.instanceId →
      applyRows w.store c snapshot authMap historicalAliases = .ok (store', new) →
      Inv { w with
        store := store'
        retiredEpochs := retired ++ w.retiredEpochs
        postings := new ++ w.postings
        added := fun u => w.added u + (bytesOf store'.users u - bytesOf w.store.users u) } := by
    intro c retired store' new hfits hinstance happly
    obtain ⟨c', hc'⟩ := applyRows_ok happly hinstance.symm hfits.books hw.chained hfits.pending
      (fun row hrow => hinstance ▸ offered hallowed hrecognised hrow)
    obtain ⟨hgrouped, hleads⟩ := hw.grouped.append hfits.leads (fun p hp => (hc'.own p hp).1)
    refine ⟨?_, ?_, ?_, hc'.chained, ?_, hgrouped⟩
    · intro hnone
      cases hc'.counters.symm.trans hnone
    · intro c'' hc''
      rw [hc'.counters] at hc''
      cases hc''
      refine ⟨hc'.instanceId ▸ hc'.books, hc'.pending, ?_, hc'.instanceId ▸ hleads⟩
      intro p hp
      rw [hc'.instanceId, hc'.retired]
      obtain hp | hp := List.mem_append.mp hp
      · exact .inl (hc'.own p hp).1
      · exact hfits.known p hp
    · intro u
      dsimp only
      rw [hc'.credited u, add_tsub_cancel_left, credits_append, hw.credited u, add_comm]
    · intro q earlier hsuffix hmigrated
      obtain hq | hq := mem_or_suffix hsuffix
      · -- a snapshot that migrates is the first one
        have hfirst : migrates w.store = true := (hc'.own q hq).2 ▸ hmigrated
        have hnone : w.store.counters = none := by
          simp only [migrates, Bool.and_eq_true, Option.isNone_iff_eq_none] at hfirst
          exact hfirst.1
        intro p hp
        have hmem : p ∈ new ++ w.postings := hsuffix.subset (List.mem_cons_of_mem q hp)
        rw [hw.fresh hnone, List.append_nil] at hmem
        exact (hc'.own p hmem).2 ▸ hfirst
      · exact hw.migrated q earlier hq hmigrated
  simp only [World.next, applyCounters]
  cases hcurrent : currentCounters w.store.counters w.retiredEpochs snapshot with
  | error e => exact hw
  | ok c =>
    obtain ⟨hinstance, hfits⟩ := fits_current hw hrecognised hcurrent
    dsimp only
    by_cases hversion : snapshot.counterVersion = .two
    · rw [if_pos hversion]
      cases happly : applyRows w.store { c with
        retiredInstances := [] } snapshot authMap historicalAliases with
      | error e => exact hmore
      | ok result =>
        refine haccepted { c with retiredInstances := [] } c.retiredInstances result.1 result.2
          ⟨hfits.books, hfits.pending, ?_, hfits.leads⟩ hinstance happly
        intro p hp
        obtain hp | hp | hp := hfits.known p hp
        · exact .inl hp
        · exact .inr (.inr (List.mem_append_left _ hp))
        · exact .inr (.inr (List.mem_append_right _ hp))
    · rw [if_neg hversion]
      cases happly : applyRows w.store c snapshot authMap historicalAliases with
      | error e => exact hw
      | ok result => exact haccepted c [] result.1 result.2 hfits hinstance happly

theorem Fits.acknowledge {c : Counters} (hc : Fits w c) {keys : List CounterKey}
    (hkeys : ∀ key ∈ keys, key ∈ c.retirementPending.keys) (c' : Counters)
    (hc' : c' = c ∨ c' = settle c keys) :
    Fits { w with acknowledged := keys.map (c.instanceId, ·) ++ w.acknowledged } c' := by
  have hinstance : c'.instanceId = c.instanceId := by
    obtain rfl | rfl := hc' <;> rfl
  have hretired : c'.retiredInstances = c.retiredInstances := by
    obtain rfl | rfl := hc' <;> rfl
  have hrows : ∀ key, key ∉ keys → c'.rows.get? key = c.rows.get? key := by
    intro key hkey
    obtain rfl | rfl := hc'
    · rfl
    · simp [settle, Dict.get?_filterKeys, hkey]
  have hless : ∀ key b, c'.rows.get? key = some b → c.rows.get? key = some b := by
    intro key b hget
    obtain rfl | rfl := hc'
    · exact hget
    simp only [settle, Dict.get?_filterKeys] at hget
    split at hget
    · exact hget
    · cases hget
  have hplain : ∀ key : CounterKey, key.id = "" → key ∉ keys :=
    fun key hid hkey => hc.pending key (hkeys key hkey) hid
  refine ⟨⟨?_, ?_, ?_⟩, ?_, ?_, ?_⟩
  · intro key hid hnot
    rw [hinstance] at hnot ⊢
    simp only [List.mem_append, List.mem_map, Prod.mk.injEq, true_and, exists_eq_right,
      not_or] at hnot
    rw [hrows key hnot.1]
    exact hc.books.numbered key hid hnot.2
  · intro key hid
    rw [hinstance, hrows key (hplain key hid)]
    exact hc.books.plain key hid
  · intro key b hid hget
    rw [hrows key.legacy (hplain key.legacy rfl)]
    exact hc.books.apart key b hid (hless key b hget)
  · intro key hkey
    obtain rfl | rfl := hc'
    · exact hc.pending key hkey
    obtain ⟨row, hrow⟩ := Dict.mem_keys_iff.mp hkey
    simp only [settle, Dict.get?_filterKeys] at hrow
    split at hrow
    · exact hc.pending key (Dict.mem_keys_iff.mpr ⟨row, hrow⟩)
    · cases hrow
  · rw [hinstance, hretired]
    exact hc.known
  · rw [hinstance]
    exact hc.leads

theorem Inv.next (hw : Inv w) (step : Step) (hallowed : Allowed w step)
    (hrecognised : Recognised w step) :
    Inv (w.next step) := by
  cases step with
  | offer snapshot authMap historicalAliases => exact hw.offer hallowed hrecognised
  | acknowledge confirmed replied =>
    simp only [World.next]
    split
    · exact hw
    next c hsome =>
      have hkeys : ∀ key ∈ confirmed.filter (· ∈ c.retirementPending.keys),
          key ∈ c.retirementPending.keys := by
        intro key hkey
        simpa using (List.mem_filter.mp hkey).2
      refine ⟨?_, ?_, hw.credited, hw.chained, hw.migrated, hw.grouped⟩
      · intro hnone
        cases replied <;> simp [hsome] at hnone
      intro c' hc'
      have hone : c' = c ∨ c' = settle c (confirmed.filter (· ∈ c.retirementPending.keys)) := by
        cases replied with
        | true => exact .inr (by simpa using hc'.symm)
        | false => exact .inl (by simpa [hsome] using hc'.symm)
      have hfits := (hw.fits c hsome).acknowledge hkeys c' hone
      exact { hfits with }
  | write users collected =>
    refine ⟨hw.fresh, ?_, hw.credited, hw.chained, hw.migrated, hw.grouped⟩
    intro c hc
    have hfits := hw.fits c hc
    exact { hfits with }

/-- From a store without counters, in every run in which no acknowledged counter comes back, under
its own name or without its id, and snapshots of the first version come from instances that are not
in the history. -/
theorem native_accounting_exact (store : Store) (retiredEpochs : List String)
    (hstore : store.counters = none) (steps : List Step)
    (hsteps : Permitted World.next (fun w step => Allowed w step ∧ Recognised w step) steps
      { store := store, retiredEpochs := retiredEpochs }) :
    Exact (run World.next steps { store := store, retiredEpochs := retiredEpochs }) :=
  (run_invariant (fun _ step hw h => hw.next step h.1 h.2) (inv_start store retiredEpochs hstore)
    hsteps).exact

section Example

def emptyStore : Store := ⟨Dict.empty, false, none⟩

def oldSnapshot (upload : Nat) : Snapshot :=
  ⟨"old", .one, [⟨⟨"vless-in", "node-manager:bob", ""⟩, upload, 0, false⟩], by simp⟩

def newSnapshot (upload : Nat) : Snapshot :=
  ⟨"new", .two, [⟨⟨"vless-in", "node-manager:bob", "c1"⟩, upload, 0, true⟩], by simp⟩

def replacedCore : List Step :=
  [.offer (oldSnapshot 100) Dict.empty Dict.empty, .offer (newSnapshot 5) Dict.empty Dict.empty,
    .acknowledge [⟨"vless-in", "node-manager:bob", "c1"⟩] true]

theorem replaced_core_exact : Exact (run World.next replacedCore { store := emptyStore }) :=
  native_accounting_exact emptyStore [] rfl replacedCore (by decide +kernel)

/-- The core that is there reports bob without an id after the counter with an id was
acknowledged. -/
def olderReport : List Step :=
  [.offer (oldSnapshot 100) Dict.empty Dict.empty,
    .offer ⟨"old", .two, [⟨⟨"vless-in", "node-manager:bob", "c1"⟩, 100, 0, true⟩], by simp⟩
    Dict.empty Dict.empty, .acknowledge [⟨"vless-in", "node-manager:bob", "c1"⟩] true,
    .offer (oldSnapshot 100) Dict.empty Dict.empty]

/-- The replaced core is heard once more, or a counter comes back without its id: what was counted
is added a second time. -/
theorem replaced_core_counted_again :
    (Permitted World.next Allowed (replacedCore ++ [.offer (oldSnapshot 100) Dict.empty Dict.empty])
        { store := emptyStore } ∧
      (run World.next (replacedCore ++ [.offer (oldSnapshot 100) Dict.empty Dict.empty])
        { store := emptyStore }).added "bob" = (205, 0)) ∧
    Permitted World.next Allowed olderReport { store := emptyStore } ∧
      (run World.next olderReport { store := emptyStore }).added "bob" = (200, 0) := by
  decide +kernel

end Example

end NodeManager.CounterRuns
