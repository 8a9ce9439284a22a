import NodeManager.Dictionary

namespace NodeManager.Dictionary.Dict

variable {κ α M : Type} [DecidableEq κ] [AddCommMonoid M]

def valueAt (d : Dict κ α) (f : α → M) (k : κ) : M := ((d.get? k).map f).getD 0

theorem valueAt_of_not_mem {d : Dict κ α} {k : κ} (h : k ∉ d.keys) (f : α → M) :
    d.valueAt f k = 0 := by
  simp [valueAt, get?_eq_none.mpr h]

theorem valueAt_of_get? {d : Dict κ α} {k : κ} {v : α} (h : d.get? k = some v) (f : α → M) :
    d.valueAt f k = f v := by
  simp [valueAt, h]

theorem hasFiniteSupport_valueAt (d : Dict κ α) (f : α → M) : (d.valueAt f).HasFiniteSupport := by
  refine (List.finite_toSet d.keys).subset ?_
  intro k hk
  by_contra hmem
  exact hk (valueAt_of_not_mem hmem f)

theorem sum_map_eq_finsum {keys : List κ} (hnodup : keys.Nodup) {f : κ → M}
    (hf : ∀ k ∉ keys, f k = 0) :
    (keys.map f).sum = ∑ᶠ k, f k := by
  have hsupport : Function.support f ⊆ (keys.toFinset : Set κ) := by
    intro k hk
    by_contra hmem
    exact hk (hf k (by simpa using hmem))
  rw [finsum_eq_sum_of_support_subset f hsupport, List.sum_toFinset f hnodup]

theorem sum_entries (d : Dict κ α) (f : α → M) :
    (d.entries.map (fun e => f e.2)).sum = ∑ᶠ k, d.valueAt f k := by
  rw [← sum_map_eq_finsum d.nodup (fun k hk => valueAt_of_not_mem hk f), List.map_map]
  congr 1
  apply List.map_congr_left
  rintro ⟨k, v⟩ hmem
  exact (valueAt_of_get? (mem_entries_iff.mp hmem) f).symm

theorem hasFiniteSupport_single (k : κ) (m : M) :
    (fun j => if j = k then m else 0).HasFiniteSupport := by
  refine (Set.finite_singleton k).subset ?_
  intro j hj
  by_contra hne
  exact hj (if_neg hne)

theorem finsum_valueAt_set_add (d : Dict κ α) (f : α → M) (k : κ) (v : α) :
    ∑ᶠ j, (d.set k v).valueAt f j + d.valueAt f k = ∑ᶠ j, d.valueAt f j + f v := by
  have hsingle : ∀ m : M, ∑ᶠ j, (if j = k then m else 0) = m := fun m => by
    rw [finsum_eq_single _ k (fun j hj => if_neg hj), if_pos rfl]
  conv_lhs => rw [← hsingle (d.valueAt f k)]
  conv_rhs => rw [← hsingle (f v)]
  rw [← finsum_add_distrib (hasFiniteSupport_valueAt _ f) (hasFiniteSupport_single k _),
    ← finsum_add_distrib (hasFiniteSupport_valueAt _ f) (hasFiniteSupport_single k _)]
  congr 1
  funext j
  by_cases hj : j = k
  · simp [hj, valueAt, get?_set, add_comm]
  · simp [hj, valueAt, get?_set]

theorem finsum_valueAt_set {G : Type} [AddCommGroup G] (d : Dict κ α) (f : α → G) (k : κ) (v : α) :
    ∑ᶠ j, (d.set k v).valueAt f j = ∑ᶠ j, d.valueAt f j + (f v - d.valueAt f k) := by
  rw [← add_sub_assoc, eq_sub_iff_add_eq]
  exact finsum_valueAt_set_add d f k v

end NodeManager.Dictionary.Dict
