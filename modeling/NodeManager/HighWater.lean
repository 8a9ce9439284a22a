import NodeManager.DictionarySums

namespace NodeManager.HighWater

open Dictionary

variable {κ α M : Type} [DecidableEq κ] {d : Dict κ α} {f : α → M} {log : List (κ × M)}

/-- Marks that only rise: every mark is the last value in the log, latest first, and none in it is
above. -/
structure Marks [LE M] (d : Dict κ α) (f : α → M) (log : List (κ × M)) : Prop where
  last : ∀ k, (d.get? k).map f = (log.find? (fun e => e.1 = k)).map Prod.snd
  most : ∀ k m v, (k, m) ∈ log → d.get? k = some v → m ≤ f v

theorem marks_empty [LE M] : Marks (Dict.empty : Dict κ α) f [] := ⟨fun _ => rfl, by simp⟩

theorem Marks.isGreatest [Preorder M] (h : Marks d f log) {k : κ} {v : α} (hv : d.get? k = some v) :
    IsGreatest {m | (k, m) ∈ log} (f v) := by
  refine ⟨?_, fun m hm => h.most k m v hm hv⟩
  have hlast := h.last k
  rw [hv] at hlast
  obtain ⟨⟨j, m⟩, hfind, hm⟩ := Option.map_eq_some_iff.mp hlast.symm
  have hj : j = k := by simpa using List.find?_some hfind
  have hmem := List.mem_of_find?_eq_some hfind
  subst hj
  rwa [show m = f v from hm] at hmem

theorem Marks.set [Preorder M] (h : Marks d f log) {k : κ} {v : α}
    (hle : ∀ old, d.get? k = some old → f old ≤ f v) : Marks (d.set k v) f ((k, f v) :: log) := by
  constructor
  · intro j
    rw [Dict.get?_set, List.find?_cons]
    by_cases hj : j = k
    · simp [hj]
    · simp [hj, Ne.symm hj, h.last]
  · intro j m w hmem hw
    rw [Dict.get?_set] at hw
    obtain heq | hm := List.mem_cons.mp hmem
    · cases heq
      cases (if_pos rfl).symm.trans hw
      exact le_refl _
    split at hw
    next hj =>
      cases hw
      subst hj
      cases hold : d.get? j with
      | some old => exact (h.most j m old hm hold).trans (hle old hold)
      | none =>
        have hnone : log.find? (fun e => e.1 = j) = none := by simpa [hold] using (h.last j).symm
        simpa using List.find?_eq_none.mp hnone (j, m) hm
    · exact h.most j m w hm hw

end NodeManager.HighWater
