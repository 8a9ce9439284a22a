import Mathlib.Data.List.Basic

namespace NodeManager.FirstMatch

variable {ρ κ δ : Type} [DecidableEq κ] {condition : ρ → κ} {l l' : List ρ} {c d : κ}
  {holds : κ → Bool}

def firstWith (condition : ρ → κ) (l : List ρ) (holds : κ → Bool) : Option ρ :=
  l.find? (holds ∘ condition)

def leader (condition : ρ → κ) (l : List ρ) (c : κ) : Option ρ := l.find? (fun r => condition r = c)

def Precedes (condition : ρ → κ) (l : List ρ) (c d : κ) : Prop :=
  (l.map condition).idxOf c < (l.map condition).idxOf d

instance (c d : κ) : Decidable (Precedes condition l c d) := inferInstanceAs (Decidable (_ < _))

@[simp] theorem leader_nil (c : κ) : leader condition [] c = none := rfl

theorem leader_cons (r : ρ) (c : κ) :
    leader condition (r :: l) c = if condition r = c then some r else leader condition l c := by
  unfold leader
  split <;> simp_all

theorem leader_eq_none : leader condition l c = none ↔ c ∉ l.map condition := by
  simp [leader, List.find?_eq_none]

theorem precedes_cons {r : ρ} : Precedes condition (r :: l) c d ↔
    condition r ≠ d ∧ (condition r = c ∨ Precedes condition l c d) := by
  unfold Precedes
  simp only [List.map_cons, List.idxOf_cons, cond_eq_ite, beq_iff_eq]
  split <;> split <;> simp_all

theorem Precedes.asymm (h : Precedes condition l c d) : ¬Precedes condition l d c := Nat.lt_asymm h

omit [DecidableEq κ] in
theorem firstWith_cons (r : ρ) (holds : κ → Bool) : firstWith condition (r :: l) holds =
    if holds (condition r) = true then some r else firstWith condition l holds := by
  unfold firstWith
  rw [List.find?_cons]
  split <;> simp_all

theorem firstWith_eq_some {r : ρ} : firstWith condition l holds = some r ↔
    holds (condition r) = true ∧ leader condition l (condition r) = some r ∧
      ∀ c, holds c = true → c ≠ condition r → Precedes condition l (condition r) c := by
  induction l with
  | nil => simp [firstWith]
  | cons s l ih =>
    rw [firstWith_cons]
    by_cases hs : holds (condition s) = true
    · rw [if_pos hs]
      constructor
      · rintro ⟨⟩
        refine ⟨hs, by simp [leader_cons], fun c _ hne => ?_⟩
        exact precedes_cons.mpr ⟨hne.symm, .inl rfl⟩
      · rintro ⟨-, hleader, hbefore⟩
        by_cases heq : condition s = condition r
        · simpa [leader_cons, heq] using hleader
        · exact absurd rfl (precedes_cons.mp (hbefore (condition s) hs heq)).1
    · rw [if_neg hs, ih]
      refine and_congr_right (fun hr => ?_)
      have hne : condition s ≠ condition r := fun heq => hs (heq ▸ hr)
      rw [leader_cons, if_neg hne]
      refine and_congr_right (fun _ => forall_congr' (fun c => forall_congr' (fun hc => ?_)))
      have hsc : condition s ≠ c := fun heq => hs (heq ▸ hc)
      simp [precedes_cons, hsc, hne]

theorem firstWith_eq_none : firstWith condition l holds = none ↔ ∀ c, holds c = true →
    leader condition l c = none := by
  simp only [leader_eq_none, firstWith, List.find?_eq_none, List.mem_map, Function.comp_apply]
  constructor
  · rintro h c hc ⟨r, hr, rfl⟩
    exact h r hr hc
  · intro h r hr hc
    exact h _ hc ⟨r, hr, rfl⟩

theorem firstWith_pair (hne : c ≠ d) : firstWith condition l (fun k => k = c || k = d) =
    if Precedes condition l c d then leader condition l c else leader condition l d := by
  induction l with
  | nil => simp [firstWith]
  | cons r l ih =>
    rw [firstWith_cons, ih]
    by_cases hc : condition r = c
    · subst hc
      simp [precedes_cons, hne, leader_cons]
    by_cases hd : condition r = d
    · simp [precedes_cons, hd, leader_cons]
    · simp [precedes_cons, hc, hd, leader_cons]

/-- Each condition has a leader in both lists or in neither, with the same decision, and leaders
that decide differently stand in the same order. -/
structure Alike (condition : ρ → κ) (l l' : List ρ) (f f' : ρ → δ) : Prop where
  leaders : ∀ c, (leader condition l c).map f = (leader condition l' c).map f'
  order : ∀ c d, (leader condition l c).map f ≠ (leader condition l d).map f →
    (Precedes condition l c d ↔ Precedes condition l' c d)

variable {f f' : ρ → δ}

theorem Alike.firstWith_eq (h : Alike condition l l' f f') (holds : κ → Bool) :
    (firstWith condition l holds).map f = (firstWith condition l' holds).map f' := by
  have hnone : firstWith condition l holds = none ↔ firstWith condition l' holds = none := by
    simp only [firstWith_eq_none]
    refine forall_congr' (fun c => forall_congr' (fun _ => ?_))
    rw [← Option.map_eq_none_iff (f := f), h.leaders c, Option.map_eq_none_iff]
  cases hr : firstWith condition l holds with
  | none => rw [hnone.mp hr]; rfl
  | some r =>
    cases hr' : firstWith condition l' holds with
    | none => rw [hnone.mpr hr'] at hr; cases hr
    | some r' =>
      obtain ⟨hc, hlead, hfirst⟩ := firstWith_eq_some.mp hr
      obtain ⟨hc', hlead', hfirst'⟩ := firstWith_eq_some.mp hr'
      -- the leader of the other list's condition decides like its own, whichever stands first
      have hsame : (leader condition l (condition r)).map f =
          (leader condition l (condition r')).map f := by
        by_contra hdiff
        have hne : condition r ≠ condition r' := fun heq => hdiff (by rw [heq])
        have hbefore := (h.order _ _ hdiff).mp (hfirst _ hc' hne.symm)
        exact hbefore.asymm (hfirst' _ hc hne)
      rw [hlead, h.leaders, hlead'] at hsame
      exact hsame

theorem alike_of_firstWith (h : ∀ holds,
    (firstWith condition l holds).map f = (firstWith condition l' holds).map f') :
    Alike condition l l' f f' := by
  refine ⟨fun c => h (· = c), fun c d hdiff => ?_⟩
  have hne : c ≠ d := fun heq => hdiff (by rw [heq])
  have hpair := h (fun k => k = c || k = d)
  have hc := h (· = c)
  have hd := h (· = d)
  rw [firstWith_pair hne, firstWith_pair hne] at hpair
  split at hpair <;> split at hpair
  · simp [*]
  · exact absurd (hpair.trans hd.symm) hdiff
  · exact absurd (hc.trans hpair.symm) hdiff
  · simp [*]

end NodeManager.FirstMatch
