import Mathlib.Tactic.Cases

namespace NodeManager.Outcomes

variable {ε α β σ : Type} {x : Except ε α} {f : σ → α → Except ε σ} {list : List α}

@[simp] theorem ok_bind (a : α) (f : α → Except ε β) : (Except.ok a >>= f) = f a := rfl

@[simp] theorem error_bind (e : ε) (f : α → Except ε β) :
    (Except.error e >>= f) = Except.error e := rfl

theorem bind_eq_ok {f : α → Except ε β} {b : β} (h : (x >>= f) = .ok b) :
    ∃ a, x = .ok a ∧ f a = .ok b := by
  cases x with
  | error e => cases h
  | ok a => exact ⟨a, rfl, h⟩

theorem mapError_eq_ok {δ : Type} {f : ε → δ} {a : α} (h : x.mapError f = .ok a) : x = .ok a := by
  cases x with
  | error e => cases h
  | ok b =>
    cases h
    rfl

def require (p : Prop) [Decidable p] (e : ε) : Except ε Unit := if p then .ok () else .error e

theorem of_require {p : Prop} [Decidable p] {e : ε} {u : Unit} (h : require p e = .ok u) : p := by
  unfold require at h
  split at h
  · assumption
  · cases h

theorem foldlM_ok {motive : List α → σ → Prop} {s result : σ}
    (hstep : ∀ seen t a t', a ∈ list → motive seen t → f t a = .ok t' → motive (seen ++ [a]) t')
    (hs : motive [] s) (h : list.foldlM f s = .ok result) : motive list result := by
  suffices hrest : ∀ rest seen t, (∀ a ∈ rest, a ∈ list) → motive seen t →
      rest.foldlM f t = .ok result →
      motive (seen ++ rest) result from hrest list [] s (fun _ ha => ha) hs h
  intro rest
  induction rest with
  | nil =>
    intro seen t _ ht h
    cases h
    rwa [List.append_nil]
  | cons a rest ih =>
    intro seen t hmem ht h
    obtain ⟨t', ha, hrest⟩ := bind_eq_ok h
    have hnext := hstep seen t a t' (hmem a List.mem_cons_self) ht ha
    have hall := ih (seen ++ [a]) t' (fun b hb => hmem b (List.mem_cons_of_mem a hb)) hnext hrest
    rwa [List.append_assoc] at hall

theorem foldlM_total (h : ∀ s, ∀ a ∈ list, ∃ s', f s a = .ok s') (s : σ) :
    ∃ result, list.foldlM f s = .ok result := by
  induction list generalizing s with
  | nil => exact ⟨s, rfl⟩
  | cons a list ih =>
    obtain ⟨s', hs'⟩ := h s a List.mem_cons_self
    obtain ⟨result, hresult⟩ := ih (fun s b hb => h s b (List.mem_cons_of_mem a hb)) s'
    exact ⟨result, by rw [List.foldlM_cons, hs', ok_bind, hresult]⟩

def orUnchanged (result : Except ε σ) (s : σ) : σ :=
  match result with
  | .ok s' => s'
  | .error _ => s

theorem orUnchanged_invariant {Inv : σ → Prop} {result : Except ε σ} {s : σ} (hs : Inv s)
    (hok : ∀ s', result = .ok s' → Inv s') : Inv (orUnchanged result s) := by
  cases result with
  | error e => exact hs
  | ok s' => exact hok s' rfl

end NodeManager.Outcomes
