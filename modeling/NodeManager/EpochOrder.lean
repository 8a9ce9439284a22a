import NodeManager.SharedQuota

namespace NodeManager.EpochOrder

open SharedQuota TrafficRecords

variable {iso : String → Option Stamp}

section Stamps

theorem later_trans {a b c : Stamp} (h : b.later a = true) (h' : c.later b = true) :
    c.later a = true := by
  cases a <;> cases b <;> cases c <;> simp_all [Stamp.later] <;> omega

theorem later_asymm {a b : Stamp} (h : a.later b = true) : b.later a = false := by
  cases a <;> cases b <;> simp_all [Stamp.later] <;> omega

end Stamps

section Renewals

variable {a b c : Option String}

theorem renewed_iff : renewed iso a b = true ↔ ∃ new, b = some new ∧ new ≠ "" ∧
    ∀ old, a = some old → old ≠ "" → ∃ t t', iso old = some t ∧ iso new = some t' ∧
    t'.later t = true := by
  unfold renewed
  cases b with
  | none => simp
  | some new =>
    by_cases hnew : new = ""
    · simp [hnew]
    cases a with
    | none => simp [hnew]
    | some old =>
      by_cases hold : old = ""
      · simp [hnew, hold]
      · cases hiso : iso new <;> cases hiso' : iso old <;> simp [hnew, hold, hiso, hiso']

theorem renewed_trans (h : renewed iso a b = true) (h' : renewed iso b c = true) :
    renewed iso a c = true := by
  obtain ⟨middle, rfl, hmiddle, hfirst⟩ := renewed_iff.mp h
  obtain ⟨last, rfl, hlast, hsecond⟩ := renewed_iff.mp h'
  refine renewed_iff.mpr ⟨last, rfl, hlast, fun old hold hne => ?_⟩
  obtain ⟨t, t', ht, ht', hlater⟩ := hfirst old hold hne
  obtain ⟨s, s', hs, hs', hlater'⟩ := hsecond middle rfl hmiddle
  cases ht'.symm.trans hs
  exact ⟨t, s', ht, hs', later_trans hlater hlater'⟩

theorem renewed_asymm (h : renewed iso a b = true) : renewed iso b a = false := by
  by_contra hback
  obtain ⟨new, rfl, hnew, hfirst⟩ := renewed_iff.mp h
  obtain ⟨old, rfl, hold, hsecond⟩ := renewed_iff.mp (by simpa using hback)
  obtain ⟨t, t', ht, ht', hlater⟩ := hfirst old rfl hold
  obtain ⟨s, s', hs, hs', hlater'⟩ := hsecond new rfl hnew
  cases ht'.symm.trans hs
  cases ht.symm.trans hs'
  rw [later_asymm hlater] at hlater'
  cases hlater'

theorem renewed_irrefl : renewed iso a a = false := by
  by_contra h
  have h : renewed iso a a = true := by simpa using h
  rw [renewed_asymm h] at h
  cases h

end Renewals

section Epochs

variable {a b c : Epoch}

theorem advanced_iff : advanced iso a b = true ↔ number a.cycleStart < number b.cycleStart ∨
    number a.cycleStart = number b.cycleStart ∧
      (renewed iso a.renewalResetKey.get b.renewalResetKey.get = true ∨
        a.renewalResetKey.get = b.renewalResetKey.get ∧
        number a.manualResetAt ≤ number b.manualResetAt ∧
          number a.version ≤ number b.version ∧
          (number a.manualResetAt ≠ number b.manualResetAt ∨
            number a.version ≠ number b.version)) := by
  unfold advanced
  split
  next h => simp; omega
  · split
    next h => simp [h]
    next hle hge =>
      have hsame : number a.cycleStart = number b.cycleStart := by omega
      split
      next hkey => simp [hsame, hkey]
      next hkey =>
        have hkey : a.renewalResetKey.get = b.renewalResetKey.get := by simpa using hkey
        simp only [hsame, hkey, lt_self_iff_false, renewed_irrefl, Bool.false_eq_true,
          false_or, true_and]
        split
        · simp; omega
        · simp; omega

theorem advanced_asymm (h : advanced iso a b = true) : advanced iso b a = false := by
  by_contra hback
  rw [Bool.not_eq_false, advanced_iff] at hback
  rw [advanced_iff] at h
  obtain h | ⟨hcycle, h⟩ := h
  · omega
  obtain hback | ⟨-, hback⟩ := hback
  · omega
  obtain h | ⟨hkey, h⟩ := h
  · obtain hback | ⟨hkey, -⟩ := hback
    · cases (renewed_asymm h).symm.trans hback
    · rw [hkey, renewed_irrefl] at h
      cases h
  · obtain hback | ⟨-, hback⟩ := hback
    · rw [hkey, renewed_irrefl] at hback
      cases hback
    · omega

theorem ne_of_advanced (h : advanced iso a b = true) : a ≠ b := by
  rintro rfl
  have hback := advanced_asymm h
  cases h.symm.trans hback

theorem advanced_trans (h : advanced iso a b = true) (h' : advanced iso b c = true) :
    advanced iso a c = true := by
  rw [advanced_iff] at h h' ⊢
  obtain h | ⟨hcycle, h⟩ := h
  · obtain h' | ⟨hcycle', -⟩ := h'
    · exact .inl (h.trans h')
    · exact .inl (hcycle' ▸ h)
  obtain h' | ⟨hcycle', h'⟩ := h'
  · exact .inl (hcycle ▸ h')
  refine .inr ⟨hcycle.trans hcycle', ?_⟩
  obtain h | ⟨hkey, h⟩ := h
  · obtain h' | ⟨hkey', -⟩ := h'
    · exact .inl (renewed_trans h h')
    · exact .inl (hkey' ▸ h)
  · obtain h' | ⟨hkey', h'⟩ := h'
    · exact .inl (hkey ▸ h')
    · exact .inr ⟨hkey.trans hkey', by omega, by omega, by omega⟩

structure SameNumbers (a b : Epoch) : Prop where
  cycleStart : number a.cycleStart = number b.cycleStart
  manualResetAt : number a.manualResetAt = number b.manualResetAt
  version : number a.version = number b.version
  renewalResetKey : a.renewalResetKey = b.renewalResetKey

theorem SameNumbers.advanced_eq {a' b' : Epoch} (ha : SameNumbers a a') (hb : SameNumbers b b') :
    advanced iso a b = advanced iso a' b' := by
  simp only [advanced, ha.cycleStart, ha.manualResetAt, ha.version, ha.renewalResetKey,
    hb.cycleStart, hb.manualResetAt, hb.version, hb.renewalResetKey]

/-- Epochs are strictly ordered, also those that no validation accepts, and a missing number counts
as zero. -/
theorem advanced_strictly_orders (iso : String → Option Stamp) :
    IsStrictOrder Epoch (fun a b => advanced iso a b = true) ∧
    Std.Asymm (fun a b => advanced iso a b = true) ∧
      ∀ a a' b b', SameNumbers a a' → SameNumbers b b' → advanced iso a b = advanced iso a' b' := by
  refine ⟨{ irrefl := fun a h => ne_of_advanced h rfl, trans := fun a b c => advanced_trans },
    ⟨fun a b h => ?_⟩, ?_⟩
  · rw [advanced_asymm h]
    exact Bool.false_ne_true
  · exact fun a a' b b' ha hb => ha.advanced_eq hb

end Epochs

end NodeManager.EpochOrder
