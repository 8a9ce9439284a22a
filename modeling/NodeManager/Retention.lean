import NodeManager.Dictionary

namespace NodeManager.Retention

open Dictionary

structure Limits where
  retention : Nat
  maxEntries : Nat

section Lists

variable {α : Type} {l : List α}

theorem filter_orderedInsert (r : α → α → Prop) [DecidableRel r] [IsTrans α r]
    (p : α → Bool) (a : α) (hl : l.Pairwise r) :
    (l.orderedInsert r a).filter p = if p a then (l.filter p).orderedInsert r a
    else l.filter p := by
  induction l with
  | nil => cases hp : p a <;> simp [hp]
  | cons b l ih =>
    obtain ⟨hb, hl⟩ := List.pairwise_cons.mp hl
    rw [List.orderedInsert_cons]
    split
    next hab =>
      -- everything that is left of the list stays behind `a`
      have hfront : (List.filter p (b :: l)).orderedInsert r a = a :: List.filter p (b :: l) := by
        cases hrest : List.filter p (b :: l) with
        | nil => rfl
        | cons c rest =>
          have hc : c ∈ b :: l := (List.mem_filter.mp (hrest ▸ List.mem_cons_self)).1
          have hac : r a c := by
            obtain rfl | hc := List.mem_cons.mp hc
            · exact hab
            · exact IsTrans.trans a b c hab (hb c hc)
          rw [List.orderedInsert_cons, if_pos hac]
      rw [hfront]
      cases hp : p a <;> simp [hp]
    next hab =>
      cases hpb : p b with
      | false => simp only [hpb, List.filter_cons, Bool.false_eq_true, if_false, ih hl]
      | true =>
        simp only [hpb, List.filter_cons, if_true, ih hl]
        split
        · rw [List.orderedInsert_cons, if_neg hab]
        · rfl

theorem filter_insertionSort (r : α → α → Prop) [DecidableRel r] [IsTrans α r] [Std.Total r]
    (p : α → Bool) (l : List α) : (l.insertionSort r).filter p = (l.filter p).insertionSort r := by
  induction l with
  | nil => rfl
  | cons a l ih =>
    rw [List.insertionSort_cons, filter_orderedInsert r p a (List.pairwise_insertionSort r l), ih,
      List.filter_cons]
    split <;> simp

variable [DecidableEq α] {k : α}

def after (k : α) : List α → List α
  | [] => []
  | x :: l => if x = k then l else after k l

theorem length_after_le (k : α) (l : List α) : (after k l).length ≤ l.length - 1 := by
  induction l with
  | nil => simp [after]
  | cons x l ih =>
    simp only [after]
    split
    · simp
    · simp only [List.length_cons]
      omega

theorem after_filter {p : α → Bool} (hk : p k = true) (l : List α) :
    after k (l.filter p) = (after k l).filter p := by
  induction l with
  | nil => rfl
  | cons x l ih =>
    by_cases hx : x = k
    · subst hx
      simp [after, hk]
    · cases hp : p x <;> simp [after, hp, hx, ih]

theorem mem_take_iff (hk : k ∈ l) (n : Nat) : k ∈ l.take n ↔ l.length ≤ n + (after k l).length := by
  induction l generalizing n with
  | nil => cases hk
  | cons x l ih =>
    cases n with
    | zero =>
      have := length_after_le k (x :: l)
      simp only [List.take_zero, List.not_mem_nil, List.length_cons, false_iff] at this ⊢
      omega
    | succ n =>
      by_cases hx : x = k
      · subst hx
        simp only [List.take_succ_cons, List.mem_cons, true_or, after, if_true,
          List.length_cons, true_iff]
        omega
      · have hmem : k ∈ l := (List.mem_cons.mp hk).resolve_left (Ne.symm hx)
        simp only [List.take_succ_cons, List.mem_cons, after, if_neg hx, ih hmem n,
          Ne.symm hx, false_or, List.length_cons]
        omega

theorem forall_after {R : α → α → Prop} (hl : l.Pairwise R) (x : α)
    (hx : x ∈ after k l) : R k x := by
  induction l with
  | nil => cases hx
  | cons y l ih =>
    obtain ⟨hy, hl⟩ := List.pairwise_cons.mp hl
    simp only [after] at hx
    split at hx
    next heq => exact heq ▸ hy x hx
    · exact ih hl hx

theorem mem_of_mem_after {x : α} (hx : x ∈ after k l) : x ∈ l := by
  induction l with
  | nil => cases hx
  | cons y l ih =>
    simp only [after] at hx
    split at hx
    · exact List.mem_cons_of_mem y hx
    · exact List.mem_cons_of_mem y (ih hx)

end Lists

variable {κ α : Type} (time : α → Nat)

def expired (limits : Limits) (now : Nat) (d : Dict κ α) : List κ :=
  (d.entries.filter (fun e => time e.2 + limits.retention < now)).map Prod.fst

def oldest (d : Dict κ α) : List κ :=
  (d.entries.insertionSort (fun a b => time a.2 ≤ time b.2)).map Prod.fst

section Order

variable {time} {d : Dict κ α}

theorem mem_oldest {k : κ} : k ∈ oldest time d ↔ k ∈ d.keys := by
  simp only [oldest, Dict.keys, List.mem_map, List.mem_insertionSort]

theorem length_oldest : (oldest time d).length = d.entries.length := by
  simp only [oldest, List.length_map, List.length_insertionSort]

theorem oldest_filterKeys (p : κ → Bool) :
    oldest time (d.filterKeys p) = (oldest time d).filter p := by
  have hsort := filter_insertionSort
    (fun a b : κ × α => time a.2 ≤ time b.2) (fun e => p e.1) d.entries
  simp only [oldest, Dict.filterKeys, ← hsort, List.filter_map]
  rfl

end Order

variable [DecidableEq κ]

/-- Drops what is expired, and then the oldest entries that are too many. -/
def prune (limits : Limits) (now : Nat) (d : Dict κ α) : Dict κ α :=
  let d := d.filterKeys (· ∉ expired time limits now d)
  if d.entries.length ≤ limits.maxEntries then d
  else d.filterKeys (· ∉ (oldest time d).take (d.entries.length - limits.maxEntries))

def newer (d : Dict κ α) (k : κ) : List κ := after k (oldest time d)

variable {time} {limits : Limits} {now : Nat} {d : Dict κ α} {k : κ} {v : α}

theorem mem_expired : k ∈ expired time limits now d ↔ ∃ v, d.get? k = some v ∧
    time v + limits.retention < now := by
  simp only [expired, List.mem_map, List.mem_filter, decide_eq_true_eq, Prod.exists,
    exists_and_right, exists_eq_right, Dict.mem_entries_iff]

theorem oldest_pairwise : (oldest time d).Pairwise
    (fun k x => ∀ v y, d.get? k = some v → d.get? x = some y → time v ≤ time y) := by
  rw [oldest, List.pairwise_map]
  apply List.Pairwise.imp_of_mem _ (List.pairwise_insertionSort _ d.entries)
  intro a b ha hb hab v y hv hy
  have ha := Dict.mem_entries_iff.mp ((List.mem_insertionSort _).mp ha)
  have hb := Dict.mem_entries_iff.mp ((List.mem_insertionSort _).mp hb)
  rw [hv] at ha
  rw [hy] at hb
  rwa [Option.some.inj ha, Option.some.inj hb]

theorem get?_unexpired : (d.filterKeys (· ∉ expired time limits now d)).get? k =
    (d.get? k).filter (fun v => now ≤ time v + limits.retention) := by
  rw [Dict.get?_filterKeys]
  cases hk : d.get? k with
  | none => simp
  | some v =>
    have hexpired : k ∈ expired time limits now d ↔ time v + limits.retention < now := by
      simp [mem_expired, hk]
    by_cases hv : time v + limits.retention < now
    · simp [Option.filter_some, hexpired, hv]
    · simp [Option.filter_some, hexpired, hv, not_lt.mp hv]

theorem newer_unexpired (hk : d.get? k = some v) (hv : now ≤ time v + limits.retention) :
    newer time (d.filterKeys (· ∉ expired time limits now d)) k = newer time d k := by
  have hkeep : k ∉ expired time limits now d := by
    simp [mem_expired, hk, hv]
  rw [newer, oldest_filterKeys, after_filter (by simpa using hkeep), newer, List.filter_eq_self]
  intro x hx
  obtain ⟨y, hy⟩ := Dict.mem_keys_iff.mp (mem_oldest.mp (mem_of_mem_after hx))
  have hle := forall_after oldest_pairwise x hx v y hk hy
  simp only [decide_eq_true_eq, mem_expired, hy, Option.some.injEq, exists_eq_left', not_lt]
  omega

theorem get?_prune : (prune time limits now d).get? k = (d.get? k).filter
    (fun v => now ≤ time v + limits.retention ∧ (newer time d k).length < limits.maxEntries) := by
  let d' := d.filterKeys (· ∉ expired time limits now d)
  have hd' : d'.get? k = (d.get? k).filter (fun v => now ≤ time v + limits.retention) :=
    get?_unexpired
  change (if d'.entries.length ≤ limits.maxEntries then d'
    else d'.filterKeys (· ∉ (oldest time d').take
      (d'.entries.length - limits.maxEntries))).get? k = _
  cases hk : d'.get? k with
  | none =>
    have hnone : (d.get? k).filter
        (fun v => now ≤ time v + limits.retention ∧
          (newer time d k).length < limits.maxEntries) = none := by
      rw [hk] at hd'
      rw [Option.filter_eq_none_iff]
      intro v hv hkeep
      have hdrop := Option.filter_eq_none_iff.mp hd'.symm v hv
      simp_all
    rw [hnone]
    split
    · exact hk
    · rw [Dict.get?_filterKeys, hk, ite_self]
  | some v =>
    rw [hk] at hd'
    obtain ⟨hv, hfresh⟩ := Option.filter_eq_some_iff.mp hd'.symm
    have hfresh : now ≤ time v + limits.retention := by simpa using hfresh
    have hnewer : newer time d' k = newer time d k := newer_unexpired hv hfresh
    have hmem : k ∈ oldest time d' := mem_oldest.mpr (Dict.mem_keys_iff.mpr ⟨v, hk⟩)
    have hless := length_after_le k (oldest time d')
    have htake := mem_take_iff hmem (d'.entries.length - limits.maxEntries)
    have hpos := List.length_pos_of_mem hmem
    rw [← hnewer, hv]
    simp only [newer, Option.filter_some, hfresh, true_and, length_oldest] at hless htake hpos ⊢
    split
    · rw [hk, if_pos (by simp; omega)]
    rw [Dict.get?_filterKeys, hk]
    simp only [htake, decide_not, Bool.not_eq_true', decide_eq_false_iff_not, decide_eq_true_eq]
    congr 1
    apply propext
    omega

end NodeManager.Retention
