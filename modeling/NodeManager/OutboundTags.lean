import NodeManager.Bindings

namespace NodeManager.OutboundTags

open Text Singbox Identities Bindings

variable {h : Host} {u w tag : String}

theorem isUserProxyOutboundTag_iff : isUserProxyOutboundTag h tag u = true ↔ tag = outboundTag u ∨
      ∃ digits, tag.toList = (outboundTag u).toList ++ '-' :: digits ∧ digits ≠ [] ∧
      ∀ c ∈ digits, isDigit h c = true := by
  have hdrop : ∀ t : String, (outboundTag u ++ t).toList.drop (outboundTag u).length =
      t.toList := by
    intro t
    rw [String.toList_append, ← String.length_toList, List.drop_left]
  rw [isUserProxyOutboundTag, Bool.or_eq_true, decide_eq_true_eq]
  apply or_congr_right
  by_cases hs : startsWith tag (outboundTag u) = true
  · obtain ⟨t, rfl⟩ := startsWith_iff.mp hs
    rw [if_pos hs, hdrop, String.toList_append]
    constructor
    · intro hmatch
      split at hmatch
      next digits ht =>
        rw [Bool.and_eq_true, List.all_eq_true] at hmatch
        exact ⟨digits, by rw [ht], by simpa using hmatch.1, hmatch.2⟩
      next => cases hmatch
    · rintro ⟨digits, ht, hne, hall⟩
      rw [List.append_cancel_left ht]
      simpa [hne] using hall
  · rw [if_neg hs]
    constructor
    · intro hmatch
      cases hmatch
    rintro ⟨digits, ht, _⟩
    refine (hs (startsWith_iff.mpr ⟨String.ofList ('-' :: digits), String.toList_inj.mp ?_⟩)).elim
    rw [ht, String.toList_append, String.toList_ofList]

theorem isUserProxyOutboundTag_self (h : Host) (u : String) :
    isUserProxyOutboundTag h (outboundTag u) u = true :=
  isUserProxyOutboundTag_iff.mpr (Or.inl rfl)

theorem append_cons_cancel {α : Type} {a : α} {xs ys as bs : List α} (hx : a ∉ xs) (hy : a ∉ ys)
    (heq : xs ++ a :: as = ys ++ a :: bs) : as = bs := by
  induction xs generalizing ys with
  | nil =>
    cases ys with
    | nil => exact (List.cons.inj heq).2
    | cons y ys => exact (hy (by rw [(List.cons.inj heq).1]; exact List.mem_cons_self)).elim
  | cons x xs ih =>
    cases ys with
    | nil => exact (hx (by rw [(List.cons.inj heq).1]; exact List.mem_cons_self)).elim
    | cons y ys =>
      exact ih (fun hm => hx (List.mem_cons_of_mem x hm)) (fun hm => hy (List.mem_cons_of_mem y hm))
        (List.cons.inj heq).2

theorem own_tag_of_attributed (hu : isUserProxyOutboundTag h tag u = true)
    (hw : isUserProxyOutboundTag h tag w = true) :
    u = w ∨ tag = outboundTag u ∨ tag = outboundTag w := by
  rcases isUserProxyOutboundTag_iff.mp hu with hu | ⟨ds, hds, _, hdigits⟩
  · exact Or.inr (Or.inl hu)
  rcases isUserProxyOutboundTag_iff.mp hw with hw | ⟨es, hes, _, hdigits'⟩
  · exact Or.inr (Or.inr hw)
  have hno : ∀ {cs : List Char}, (∀ c ∈ cs, isDigit h c = true) → '-' ∉ cs.reverse := by
    intro cs hcs hm
    have := hcs _ (List.mem_reverse.mp hm)
    cases this
  have heq := congrArg List.reverse (hds.symm.trans hes)
  rw [List.reverse_append, List.reverse_append, List.reverse_cons, List.reverse_cons,
    List.append_assoc, List.append_assoc] at heq
  have htag := List.reverse_injective (append_cons_cancel (hno hdigits) (hno hdigits') heq)
  exact Or.inl (outboundTag_injective (String.toList_inj.mp htag))

theorem attributed_isCleared (hu : isUserProxyOutboundTag h tag u = true) :
    isCleared u tag = true := by
  rw [isCleared, Bool.or_eq_true, decide_eq_true_eq]
  rcases isUserProxyOutboundTag_iff.mp hu with hu | ⟨ds, hds, _⟩
  · exact Or.inr hu
  refine Or.inl (startsWith_iff.mpr ⟨String.ofList ds, String.toList_inj.mp ?_⟩)
  rw [hds, String.toList_append, String.toList_append, @String.toList_ofList ds, List.append_assoc]
  rfl

end NodeManager.OutboundTags
