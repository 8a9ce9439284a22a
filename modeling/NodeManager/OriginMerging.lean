import NodeManager.PeerRecords

namespace NodeManager.OriginMerging

open EpochOrder PeerRecords SharedQuota TrafficRecords

/-- The epochs differ at most in whether a field without a value is absent, null, zero or empty. -/
def Alike (a b : Epoch) : Prop := sameCycle a b = true ∧ number a.version = number b.version

instance (a b : Epoch) : Decidable (Alike a b) := inferInstanceAs (Decidable (_ ∧ _))

def Comparable (iso : String → Option Stamp) (a b : Epoch) : Prop :=
  advanced iso a b = true ∨ advanced iso b a = true ∨ Alike a b

instance (iso : String → Option Stamp) (a b : Epoch) : Decidable (Comparable iso a b) :=
  inferInstanceAs (Decidable (_ ∨ _ ∨ _))

def mergeAll (iso : String → Option Stamp) (records : List Origin) : Option Origin :=
  records.foldl (fun merged record => some (mergeOrigin iso merged record)) none

variable {iso : String → Option Stamp} {a b c : Epoch} {records : List Origin} {p r : Origin}

theorem alike_iff : Alike a b ↔ (number a.cycleStart = number b.cycleStart ∧
    number a.manualResetAt = number b.manualResetAt ∧
    text a.renewalResetKey = text b.renewalResetKey) ∧
      number a.version = number b.version := by
  rw [Alike, sameCycle, decide_eq_true_eq]

theorem Alike.symm (h : Alike a b) : Alike b a := by
  rw [alike_iff] at h ⊢
  exact ⟨⟨h.1.1.symm, h.1.2.1.symm, h.1.2.2.symm⟩, h.2.symm⟩

theorem Alike.trans (h : Alike a b) (h' : Alike b c) : Alike a c := by
  rw [alike_iff] at h h' ⊢
  exact ⟨⟨h.1.1.trans h'.1.1, h.1.2.1.trans h'.1.2.1, h.1.2.2.trans h'.1.2.2⟩, h.2.trans h'.2⟩

theorem not_alike_of_advanced (h : advanced iso a b = true) : ¬Alike a b := by
  intro halike
  obtain ⟨⟨hcycle, hmanual, htext⟩, hversion⟩ := alike_iff.mp halike
  obtain h | ⟨-, h | ⟨-, -, -, h⟩⟩ := advanced_iff.mp h
  · omega
  · obtain ⟨new, hnew, hne, -⟩ := renewed_iff.mp h
    have hold : a.renewalResetKey.get = some new := by
      rw [text, text, hnew, Option.getD_some] at htext
      cases hold : a.renewalResetKey.get with
      | none => exact absurd (by rw [← htext, hold, Option.getD_none]) hne
      | some old => rw [← htext, hold, Option.getD_some]
    rw [hold, ← hnew, renewed_irrefl] at h
    cases h
  · omega

theorem advanced_of_alike (hcomparable : Comparable iso a c) (halike : Alike a b)
    (h : advanced iso b c = true) :
    advanced iso a c = true := by
  obtain hac | hca | hac := hcomparable
  · exact hac
  · exact absurd halike.symm (not_alike_of_advanced (advanced_trans h hca))
  · exact absurd (halike.symm.trans hac) (not_alike_of_advanced h)

structure Leads (iso : String → Option Stamp) (records : List Origin) (r : Origin) : Prop where
  mem : r ∈ records
  latest : ∀ s ∈ records, advanced iso s.epoch r.epoch = true ∨ Alike s.epoch r.epoch
  largest : ∀ s ∈ records, s.epoch = r.epoch → Origin.total s ≤ Origin.total r

theorem leads_singleton (r : Origin) : Leads iso [r] r where
  mem := List.mem_singleton_self r
  latest := List.forall_mem_singleton.mpr (.inr (alike_iff.mpr ⟨⟨rfl, rfl, rfl⟩, rfl⟩))
  largest := List.forall_mem_singleton.mpr (fun _ => le_rfl)

theorem Leads.merge (h : Leads iso records p)
    (hcomparable : ∀ s ∈ records, Comparable iso s.epoch r.epoch) :
    Leads iso (records ++ [r]) (mergeOrigin iso (some p) r) := by
  have hlast : Leads iso [r] r := leads_singleton r
  have hr : r ∈ records ++ [r] := List.mem_append_right _ (List.mem_singleton_self r)
  have hp : p ∈ records ++ [r] := List.mem_append_left _ h.mem
  by_cases hsame : p.epoch = r.epoch
  · -- the two are written alike, and the larger one stays
    have hlatest : ∀ s ∈ records ++ [r], advanced iso s.epoch p.epoch = true ∨
      Alike s.epoch p.epoch :=
      List.forall_mem_append.mpr ⟨h.latest, hsame ▸ hlast.latest⟩
    simp only [mergeOrigin, hsame, ne_eq, not_true_eq_false, if_false]
    split
    next hlt =>
      refine ⟨hr, hsame ▸ hlatest, List.forall_mem_append.mpr ⟨fun s hs heq => ?_, hlast.largest⟩⟩
      exact (h.largest s hs (heq.trans hsame.symm)).trans hlt.le
    next hle =>
      exact ⟨hp, hlatest, List.forall_mem_append.mpr
        ⟨h.largest, List.forall_mem_singleton.mpr (fun _ => Nat.le_of_not_lt hle)⟩⟩
  · cases hadvanced : advanced iso p.epoch r.epoch with
    | true =>
      rw [mergeOrigin_advanced hadvanced]
      have hafter (s : Origin) (hs : s ∈ records) : advanced iso s.epoch r.epoch = true := by
        obtain hs' | hs' := h.latest s hs
        · exact advanced_trans hs' hadvanced
        · exact advanced_of_alike (hcomparable s hs) hs' hadvanced
      exact ⟨hr, List.forall_mem_append.mpr ⟨fun s hs => .inl (hafter s hs), hlast.latest⟩,
        List.forall_mem_append.mpr ⟨fun s hs heq => absurd heq (ne_of_advanced (hafter s hs)),
          hlast.largest⟩⟩
    | false =>
      rw [mergeOrigin_kept hsame hadvanced]
      have hback : advanced iso r.epoch p.epoch = true ∨ Alike r.epoch p.epoch := by
        obtain hforward | hback | halike := hcomparable p h.mem
        · cases hadvanced.symm.trans hforward
        · exact .inl hback
        · exact .inr halike.symm
      exact ⟨hp, List.forall_mem_append.mpr ⟨h.latest, List.forall_mem_singleton.mpr hback⟩,
        List.forall_mem_append.mpr ⟨h.largest,
          List.forall_mem_singleton.mpr (fun heq => absurd heq.symm hsame)⟩⟩

theorem mergeAll_append (records : List Origin) (r : Origin) :
    mergeAll iso (records ++ [r]) = some (mergeOrigin iso (mergeAll iso records) r) := by
  rw [mergeAll, List.foldl_append]
  rfl

theorem mergeAll_leads (hne : records ≠ [])
    (hcomparable : ∀ s ∈ records, ∀ t ∈ records, Comparable iso s.epoch t.epoch) :
    ∃ r, mergeAll iso records = some r ∧ Leads iso records r := by
  induction records using List.reverseRecOn with
  | nil => exact absurd rfl hne
  | append_singleton records r ih =>
    rw [mergeAll_append]
    by_cases hnil : records = []
    · subst hnil
      exact ⟨r, rfl, leads_singleton r⟩
    obtain ⟨p, hp, hleads⟩ := ih hnil (fun s hs t ht =>
      hcomparable s (List.mem_append_left _ hs) t (List.mem_append_left _ ht))
    rw [hp]
    exact ⟨_, rfl, hleads.merge (fun s hs =>
      hcomparable s (List.mem_append_left _ hs) r
        (List.mem_append_right _ (List.mem_singleton_self r)))⟩

theorem epoch_mergeAll_cons (hlatest : ∀ s ∈ records, advanced iso r.epoch s.epoch = false) :
    ∃ p, mergeAll iso (r :: records) = some p ∧ p.epoch = r.epoch := by
  induction records using List.reverseRecOn with
  | nil => exact ⟨r, rfl, rfl⟩
  | append_singleton records s ih =>
    obtain ⟨p, hp, hepoch⟩ := ih (fun s hs => hlatest s (List.mem_append_left _ hs))
    have hs := hlatest s (List.mem_append_right _ (List.mem_singleton_self s))
    rw [← List.cons_append, mergeAll_append, hp]
    refine ⟨_, rfl, ?_⟩
    by_cases hsame : p.epoch = s.epoch
    · obtain hmerge | hmerge := mergeOrigin_cases iso (some p) s
      · rw [hmerge, ← hsame, hepoch]
      · rw [← Option.some.inj hmerge, hepoch]
    · rw [mergeOrigin_kept hsame (hepoch ▸ hs), hepoch]

/-- In whatever order and however often the records are merged, the result has the most advanced
epoch and its largest total. -/
def Settled (iso : String → Option Stamp) (records : List Origin) : Prop :=
  ∀ sequence : List Origin, (∀ r, r ∈ sequence ↔ r ∈ records) →
    ∃ r ∈ records, mergeAll iso sequence = some r ∧
      (∀ s ∈ records, advanced iso s.epoch r.epoch = true ∨ Alike s.epoch r.epoch) ∧
        ∀ s ∈ records, Alike s.epoch r.epoch → Origin.total s ≤ Origin.total r

/-- The order does not matter just if every way in which the most advanced epoch is written has the
largest total. -/
theorem merging_settled_iff (iso : String → Option Stamp) (records : List Origin)
    (hne : records ≠ []) (hcomparable : ∀ s ∈ records, ∀ t ∈ records,
      Comparable iso s.epoch t.epoch) :
    Settled iso records ↔ ∀ r ∈ records, (∀ s ∈ records, advanced iso r.epoch s.epoch = false) →
      ∀ s ∈ records, Alike s.epoch r.epoch → ∃ t ∈ records, t.epoch = r.epoch ∧
      Origin.total s ≤ Origin.total t := by
  constructor
  · intro h r hr hlatest s hs halike
    obtain ⟨p, hp, hepoch⟩ := epoch_mergeAll_cons hlatest
    obtain ⟨t, ht, hmerged, -, hlargest⟩ := h (r :: records) (fun q => by
      rw [List.mem_cons, or_iff_right_of_imp (fun hq => hq ▸ hr)])
    rw [hp, Option.some_inj] at hmerged
    subst hmerged
    exact ⟨p, ht, hepoch, hlargest s hs (hepoch ▸ halike)⟩
  · intro h sequence hsequence
    have hnil : sequence ≠ [] := by
      rintro rfl
      exact hne (List.eq_nil_iff_forall_not_mem.mpr
        (fun r hr => List.not_mem_nil ((hsequence r).mpr hr)))
    obtain ⟨r, hr, hleads⟩ := mergeAll_leads hnil (fun s hs t ht =>
      hcomparable s ((hsequence s).mp hs) t ((hsequence t).mp ht))
    have hlatest : ∀ s ∈ records, advanced iso r.epoch s.epoch = false := by
      intro s hs
      obtain hs | hs := hleads.latest s ((hsequence s).mpr hs)
      · exact advanced_asymm hs
      · by_contra hforward
        exact not_alike_of_advanced (Bool.not_eq_false _ ▸ hforward) hs.symm
    have hmem := (hsequence r).mp hleads.mem
    refine ⟨r, hmem, hr, fun s hs => hleads.latest s ((hsequence s).mpr hs), fun s hs halike => ?_⟩
    obtain ⟨t, ht, heq, hle⟩ := h r hmem hlatest s hs halike
    exact hle.trans (hleads.largest t ((hsequence t).mpr ht) heq)

def legacyOrigin : Origin := ⟨5, 0, ⟨.missing, .null, .null, .value 0⟩⟩

def zeroOrigin : Origin := ⟨10, 0, ⟨.value 0, .null, .null, .value 0⟩⟩

def renewedOrigin : Origin := ⟨1, 0, ⟨.value 0, .null, .value "2027-01-01", .value 0⟩⟩

theorem renewal_settles : Comparable (fun _ => none) legacyOrigin.epoch renewedOrigin.epoch ∧
    Settled (fun _ => none) [legacyOrigin, zeroOrigin, renewedOrigin] :=
  ⟨by decide, (merging_settled_iff _ [legacyOrigin, zeroOrigin, renewedOrigin] nofun
    (by decide)).mpr (by decide)⟩

/-- The record that is merged first stays, although the other one has the larger total. -/
theorem legacy_origin_depends_on_order :
    validOrigin "a" legacyOrigin = true ∧ validOrigin "a" zeroOrigin = true ∧
    Comparable (fun _ => none) legacyOrigin.epoch zeroOrigin.epoch ∧
    mergeAll (fun _ => none) [legacyOrigin, zeroOrigin] = some legacyOrigin ∧
      mergeAll (fun _ => none) [zeroOrigin, legacyOrigin] = some zeroOrigin ∧
        Origin.total legacyOrigin < Origin.total zeroOrigin := by
  decide

end NodeManager.OriginMerging
