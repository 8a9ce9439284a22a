import Mathlib.Algebra.BigOperators.Finprod
import Mathlib.Data.List.Lemmas

namespace NodeManager.Dictionary

variable {κ α : Type}

/-- A Python `dict`: one value for each key, the keys in insertion order. -/
structure Dict (κ α : Type) where
  entries : List (κ × α)
  nodup : (entries.map Prod.fst).Nodup
  deriving DecidableEq, Repr

namespace Dict

def empty : Dict κ α := ⟨[], List.nodup_nil⟩

instance : Inhabited (Dict κ α) := ⟨⟨[], List.nodup_nil⟩⟩

def keys (d : Dict κ α) : List κ := d.entries.map Prod.fst

def append (d : Dict κ α) (k : κ) (v : α) (h : k ∉ d.keys) : Dict κ α :=
  ⟨d.entries ++ [(k, v)], by
    rw [List.map_append, List.map_singleton]
    exact List.Nodup.append d.nodup (List.nodup_singleton k) (List.disjoint_singleton.mpr h)⟩

@[simp] theorem keys_empty : (empty : Dict κ α).keys = [] := rfl

variable [DecidableEq κ] {d : Dict κ α} {k j : κ} {v : α}

def get? (d : Dict κ α) (k : κ) : Option α := d.entries.lookup k

def modify (d : Dict κ α) (k : κ) (f : α → α) : Dict κ α :=
  ⟨d.entries.map (fun e => if e.1 = k then (e.1, f e.2) else e), by
    have h : (fun e : κ × α => (if e.1 = k then (e.1, f e.2) else e).1) = Prod.fst := by
      funext e
      split <;> rfl
    simpa only [List.map_map, Function.comp_def, h] using d.nodup⟩

def set (d : Dict κ α) (k : κ) (v : α) : Dict κ α :=
  if h : k ∈ d.keys then d.modify k (fun _ => v) else d.append k v h

def setDefault (d : Dict κ α) (k : κ) (v : α) : Dict κ α :=
  if h : k ∈ d.keys then d else d.append k v h

def erase (d : Dict κ α) (k : κ) : Dict κ α :=
  ⟨d.entries.filter (fun e => e.1 ≠ k), d.nodup.sublist (List.filter_sublist.map _)⟩

def filterKeys (d : Dict κ α) (p : κ → Bool) : Dict κ α :=
  ⟨d.entries.filter (fun e => p e.1), d.nodup.sublist (List.filter_sublist.map _)⟩

omit [DecidableEq κ] in
theorem filterKeys_filterKeys (d : Dict κ α) (p : κ → Bool) :
    (d.filterKeys p).filterKeys p = d.filterKeys p := by
  simp only [filterKeys, List.filter_filter, Bool.and_self]

omit [DecidableEq κ] in
theorem filterKeys_eq_self {p : κ → Bool} : d.filterKeys p = d ↔ ∀ k ∈ d.keys, p k := by
  obtain ⟨entries, hnodup⟩ := d
  simp [filterKeys, keys]

theorem lookup_cons (es : List (κ × α)) (k : κ) (v : α) (j : κ) :
    ((k, v) :: es).lookup j = if j = k then some v else es.lookup j := by
  by_cases hj : j = k
  · simp [hj]
  · have hb : (j == k) = false := by simpa using hj
    simp [List.lookup_cons, hb, hj]

theorem lookup_eq_none {es : List (κ × α)} : es.lookup k = none ↔ k ∉ es.map Prod.fst := by
  induction es with
  | nil => simp
  | cons e es ih =>
    obtain ⟨k', v⟩ := e
    by_cases h : k = k' <;> simp [lookup_cons, ih, h]

theorem get?_eq_none : d.get? k = none ↔ k ∉ d.keys := lookup_eq_none

theorem mem_keys_iff : k ∈ d.keys ↔ ∃ v, d.get? k = some v := by
  rw [← Option.ne_none_iff_exists', ne_eq, get?_eq_none, not_not]

@[simp] theorem get?_empty (k : κ) : (empty : Dict κ α).get? k = none := rfl

theorem lookup_modify (es : List (κ × α)) (k : κ) (f : α → α) (j : κ) :
    (es.map (fun e => if e.1 = k then (e.1, f e.2) else e)).lookup j =
      if j = k then (es.lookup j).map f else es.lookup j := by
  induction es with
  | nil => simp
  | cons e es ih =>
    obtain ⟨k', v⟩ := e
    rw [List.map_cons, lookup_cons]
    by_cases hk : k' = k
    · subst hk
      simp only [↓reduceIte, lookup_cons, ih]
      by_cases hj : j = k' <;> simp [hj]
    · simp only [if_neg hk, lookup_cons, ih]
      by_cases hj : j = k' <;> simp [hj, hk]

theorem get?_modify (d : Dict κ α) (k : κ) (f : α → α) (j : κ) :
    (d.modify k f).get? j = if j = k then (d.get? j).map f else d.get? j :=
  lookup_modify d.entries k f j

@[simp] theorem keys_modify (d : Dict κ α) (k : κ) (f : α → α) : (d.modify k f).keys = d.keys := by
  have h : (fun e : κ × α => (if e.1 = k then (e.1, f e.2) else e).1) = Prod.fst := by
    funext e
    split <;> rfl
  simp only [keys, modify, List.map_map, Function.comp_def, h]

theorem modify_of_not_mem (hk : k ∉ d.keys) (f : α → α) : d.modify k f = d := by
  obtain ⟨es, hn⟩ := d
  have h : es.map (fun e => if e.1 = k then (e.1, f e.2) else e) = es := by
    conv_rhs => rw [← List.map_id es]
    apply List.map_congr_left
    intro e he
    exact if_neg (fun heq => hk (List.mem_map.mpr ⟨e, he, heq⟩))
  simp only [modify, h]

theorem get?_append (d : Dict κ α) (k : κ) (v : α) (h : k ∉ d.keys) (j : κ) :
    (d.append k v h).get? j = if j = k then some v else d.get? j := by
  have hl : d.entries.lookup k = none := lookup_eq_none.mpr h
  simp only [get?, append, List.lookup_append, lookup_cons]
  by_cases hj : j = k
  · subst hj; simp [hl]
  · simp [hj]

theorem get?_set (d : Dict κ α) (k : κ) (v : α) (j : κ) :
    (d.set k v).get? j = if j = k then some v else d.get? j := by
  unfold set
  split
  next h =>
    rw [get?_modify]
    by_cases hj : j = k
    · subst hj
      obtain ⟨w, hw⟩ := mem_keys_iff.mp h
      simp [hw]
    · simp [hj]
  next h => exact get?_append d k v h j

theorem entries_set_of_not_mem (hk : k ∉ d.keys) (v : α) :
    (d.set k v).entries = d.entries ++ [(k, v)] := by
  rw [set, dif_neg hk]
  rfl

theorem mem_keys_set : j ∈ (d.set k v).keys ↔ j = k ∨ j ∈ d.keys := by
  simp only [mem_keys_iff, get?_set]
  by_cases hj : j = k <;> simp [hj]

theorem keys_set_of_mem (hk : k ∈ d.keys) (v : α) : (d.set k v).keys = d.keys := by
  rw [set, dif_pos hk, keys_modify]

theorem get?_setDefault (d : Dict κ α) (k : κ) (v : α) (j : κ) :
    (d.setDefault k v).get? j = if j = k then some ((d.get? k).getD v) else d.get? j := by
  unfold setDefault
  split
  next h =>
    obtain ⟨w, hw⟩ := mem_keys_iff.mp h
    by_cases hj : j = k
    · subst hj; simp [hw]
    · simp [hj]
  next h =>
    rw [get?_append, get?_eq_none.mpr h, Option.getD_none]

theorem mem_keys_setDefault : j ∈ (d.setDefault k v).keys ↔ j = k ∨ j ∈ d.keys := by
  simp only [mem_keys_iff, get?_setDefault]
  by_cases hj : j = k <;> simp [hj]

theorem lookup_filter (es : List (κ × α)) (p : κ → Bool) (j : κ) :
    (es.filter (fun e => p e.1)).lookup j = if p j then es.lookup j else none := by
  induction es with
  | nil => simp
  | cons e es ih =>
    obtain ⟨k, v⟩ := e
    by_cases hj : j = k
    · subst hj
      by_cases hp : p j = true <;> simp [hp, ih]
    · by_cases hp : p k = true <;> simp [hp, hj, lookup_cons, ih]

theorem get?_filterKeys (d : Dict κ α) (p : κ → Bool) (j : κ) :
    (d.filterKeys p).get? j = if p j then d.get? j else none := lookup_filter d.entries p j

theorem get?_erase (d : Dict κ α) (k j : κ) :
    (d.erase k).get? j = if j = k then none else d.get? j := by
  refine (lookup_filter d.entries (fun j => decide (j ≠ k)) j).trans ?_
  by_cases hj : j = k
  · simp [hj]
  · simp [hj, get?]

theorem mem_keys_erase : j ∈ (d.erase k).keys ↔ j ≠ k ∧ j ∈ d.keys := by
  simp only [mem_keys_iff, get?_erase]
  by_cases hj : j = k <;> simp [hj]

theorem get?_foldl_set (d : Dict κ α) (ks : List κ) (v : α) (j : κ) :
    (ks.foldl (fun d k => d.set k v) d).get? j = if j ∈ ks then some v else d.get? j := by
  induction ks generalizing d with
  | nil => simp
  | cons k ks ih =>
    rw [List.foldl_cons, ih, get?_set]
    by_cases hj : j ∈ ks
    · simp [hj]
    · simp [hj]

theorem get?_foldl_erase (d : Dict κ α) (ks : List κ) (j : κ) :
    (ks.foldl erase d).get? j = if j ∈ ks then none else d.get? j := by
  induction ks generalizing d with
  | nil => simp
  | cons k ks ih =>
    rw [List.foldl_cons, ih, get?_erase]
    by_cases hj : j ∈ ks <;> simp [hj]

theorem get?_foldl_set_key (d : Dict κ α) (key : α → κ) (vs : List α)
    (h : (vs.map key).Nodup) (j : κ) :
    (vs.foldl (fun d v => d.set (key v) v) d).get? j =
    (vs.find? (fun v => key v = j)).or (d.get? j) := by
  induction vs generalizing d with
  | nil => simp
  | cons v vs ih =>
    obtain ⟨hv, hvs⟩ := List.nodup_cons.mp h
    rw [List.foldl_cons, ih _ hvs, get?_set, List.find?_cons]
    by_cases hj : key v = j
    · have hnone : vs.find? (fun v => key v = j) = none := by
        refine List.find?_eq_none.mpr (fun w hw hwj => hv ?_)
        rw [hj, ← of_decide_eq_true hwj]
        exact List.mem_map_of_mem hw
      simp [hj, hnone]
    · simp [hj, Ne.symm hj]

theorem mem_entries_iff : (k, v) ∈ d.entries ↔ d.get? k = some v := by
  obtain ⟨es, hn⟩ := d
  change (k, v) ∈ es ↔ es.lookup k = some v
  induction es with
  | nil => simp
  | cons e es ih =>
    obtain ⟨k', w⟩ := e
    rw [List.map_cons, List.nodup_cons] at hn
    by_cases h : k = k'
    · subst h
      have hne : (k, v) ∉ es := fun hm => hn.1 (List.mem_map.mpr ⟨(k, v), hm, rfl⟩)
      simp [hne, eq_comm]
    · simp [lookup_cons, h, ih hn.2]

theorem filter_entries (d : Dict κ α) (k : κ) :
    d.entries.filter (fun e => e.1 = k) = (d.get? k).toList.map (k, ·) := by
  obtain ⟨es, hn⟩ := d
  change es.filter (fun e => e.1 = k) = (es.lookup k).toList.map (k, ·)
  induction es with
  | nil => rfl
  | cons e es ih =>
    obtain ⟨j, v⟩ := e
    rw [List.map_cons, List.nodup_cons] at hn
    by_cases hj : j = k
    · subst hj
      simp [lookup_eq_none.mpr hn.1, ih hn.2]
    · simp [lookup_cons, hj, Ne.symm hj, ih hn.2]

theorem get?_foldl_update {β : Type} (d : Dict κ β) (values : Dict κ α)
    (skip : α → Prop) [DecidablePred skip] (f : Option β → α → β) (j : κ) :
    (values.entries.foldl (fun (d : Dict κ β) e => if skip e.2 then d
      else d.set e.1 (f (d.get? e.1) e.2)) d).get? j =
      match values.get? j with
      | some v => if skip v then d.get? j else some (f (d.get? j) v)
      | none => d.get? j := by
  obtain ⟨es, hn⟩ := values
  change (es.foldl (fun (d : Dict κ β) e => if skip e.2 then d
    else d.set e.1 (f (d.get? e.1) e.2)) d).get? j =
    match es.lookup j with
    | some v => if skip v then d.get? j else some (f (d.get? j) v)
    | none => d.get? j
  induction es generalizing d with
  | nil => rfl
  | cons e es ih =>
    obtain ⟨k, v⟩ := e
    rw [List.map_cons, List.nodup_cons] at hn
    rw [List.foldl_cons, ih _ hn.2, lookup_cons]
    by_cases hj : j = k
    · subst hj
      rw [lookup_eq_none.mpr hn.1, if_pos rfl]
      dsimp only
      split
      · rfl
      · rw [get?_set, if_pos rfl]
    · have hsame : (if skip v then d else d.set k (f (d.get? k) v)).get? j = d.get? j := by
        split
        · rfl
        · rw [get?_set, if_neg hj]
      simp only [if_neg hj, hsame]

theorem get?_foldl_set_entries {β : Type} (d : Dict κ β) (values : Dict κ α) (f : α → β) (j : κ) :
    (values.entries.foldl (fun d e => d.set e.1 (f e.2)) d).get? j =
    ((values.get? j).map f).or (d.get? j) := by
  have h := get?_foldl_update d values (fun _ => False) (fun _ => f) j
  simp only [if_false] at h
  rw [h]
  cases values.get? j <;> rfl

theorem perm_erase (hk : d.get? k = some v) : d.entries.Perm ((k, v) :: (d.erase k).entries) := by
  have hnodup : d.entries.Nodup := List.Nodup.of_map _ d.nodup
  refine (List.perm_ext_iff_of_nodup hnodup (List.nodup_cons.mpr ⟨by simp, hnodup.filter _⟩)).mpr ?_
  rintro ⟨j, w⟩
  by_cases h : j = k
  · subst h
    rw [mem_entries_iff, hk]
    simp [eq_comm]
  · simp [h]

end Dict

end NodeManager.Dictionary
