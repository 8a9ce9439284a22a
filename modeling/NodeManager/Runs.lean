import Mathlib.Data.List.Basic

namespace NodeManager.Runs

variable {σ ι : Type}

def run (next : ι → σ → σ) : List ι → σ → σ
  | [], s => s
  | i :: is, s => run next is (next i s)

/-- Every step of the run is allowed in the state it starts from. -/
def Permitted (next : ι → σ → σ) (allowed : σ → ι → Prop) : List ι → σ → Prop
  | [], _ => True
  | i :: is, s => allowed s i ∧ Permitted next allowed is (next i s)

variable {next : ι → σ → σ} {allowed : σ → ι → Prop}

instance decidablePermitted [∀ s i, Decidable (allowed s i)] :
    ∀ is s, Decidable (Permitted next allowed is s)
  | [], _ => isTrue trivial
  | i :: is, s =>
    have := decidablePermitted is (next i s)
    inferInstanceAs (Decidable (allowed s i ∧ Permitted next allowed is (next i s)))

theorem run_invariant {Inv : σ → Prop} (hstep : ∀ s i, Inv s → allowed s i → Inv (next i s))
    {is : List ι} {s : σ} (hs : Inv s) (hp : Permitted next allowed is s) :
    Inv (run next is s) := by
  induction is generalizing s with
  | nil => exact hs
  | cons i is ih => exact ih (hstep s i hs hp.1) hp.2

theorem run_preserves {Inv : σ → Prop} (hstep : ∀ s i, Inv s → Inv (next i s)) (is : List ι) {s : σ}
    (hs : Inv s) :
    Inv (run next is s) := by
  induction is generalizing s with
  | nil => exact hs
  | cons i is ih => exact ih (hstep s i hs)

theorem run_append (first rest : List ι) (s : σ) :
    run next (first ++ rest) s = run next rest (run next first s) := by
  induction first generalizing s with
  | nil => rfl
  | cons i first ih => exact ih (next i s)

theorem permitted_append {first rest : List ι} {s : σ}
    (hp : Permitted next allowed (first ++ rest) s) :
    Permitted next allowed first s ∧ Permitted next allowed rest (run next first s) := by
  induction first generalizing s with
  | nil => exact ⟨trivial, hp⟩
  | cons i first ih => exact ⟨⟨hp.1, (ih hp.2).1⟩, (ih hp.2).2⟩

theorem foldl_invariant {Inv : σ → Prop} {f : σ → ι → σ} {is : List ι} {s : σ} (hs : Inv s)
    (hstep : ∀ s, ∀ i ∈ is, Inv s → Inv (f s i)) : Inv (is.foldl f s) := by
  induction is generalizing s with
  | nil => exact hs
  | cons i is ih =>
    apply ih (hstep s i List.mem_cons_self hs)
    intro t j hj ht
    exact hstep t j (List.mem_cons_of_mem i hj) ht

theorem foldl_seen {motive : List ι → σ → Prop} {f : σ → ι → σ} {whole : List ι} {s : σ}
    (hs : motive [] s) (hstep : ∀ seen i rest t, whole = seen ++ i :: rest → motive seen t →
      motive (seen ++ [i]) (f t i)) :
    motive whole (whole.foldl f s) := by
  suffices h : ∀ rest seen t, whole = seen ++ rest → motive seen t →
    motive whole (rest.foldl f t) from
    h whole [] s rfl hs
  intro rest
  induction rest with
  | nil =>
    intro seen t hsplit ht
    rw [List.append_nil] at hsplit
    rwa [hsplit]
  | cons i rest ih =>
    intro seen t hsplit ht
    exact ih (seen ++ [i]) (f t i) (by rw [hsplit, List.append_assoc]; rfl)
      (hstep seen i rest t hsplit ht)

end NodeManager.Runs
