import Mathlib.Data.List.Basic
import Mathlib.Data.List.Count
import Mathlib.Data.List.TakeWhile

namespace NodeManager.Occurrences

variable {α : Type} {xs : List α} {p : α → Bool}

def insertAt (index : Nat) (x : α) (xs : List α) : List α := xs.take index ++ x :: xs.drop index

@[simp] theorem insertAt_zero (x : α) (xs : List α) : insertAt 0 x xs = x :: xs := rfl

theorem perm_insertAt (index : Nat) (x : α) (xs : List α) :
    (insertAt index x xs).Perm (x :: xs) := by
  have h : (insertAt index x xs).Perm (x :: (xs.take index ++ xs.drop index)) := List.perm_middle
  rwa [List.take_append_drop] at h

theorem mem_insertAt {index : Nat} {x y : α} : y ∈ insertAt index x xs ↔ y = x ∨ y ∈ xs := by
  rw [(perm_insertAt index x xs).mem_iff, List.mem_cons]

theorem filter_insertAt_of_neg {p : α → Bool} {index : Nat} {x : α} {xs : List α}
    (h : p x = false) :
    (insertAt index x xs).filter p = xs.filter p := by
  rw [insertAt, List.filter_append, List.filter_cons_of_neg (by simp [h]), ← List.filter_append,
    List.take_append_drop]

theorem filter_insertAt_of_pos {p : α → Bool} {index : Nat} {x : α} {xs : List α} (h : p x = true) :
    (insertAt index x xs).filter p = insertAt ((xs.take index).countP p) x (xs.filter p) := by
  have hsplit : xs.filter p = (xs.take index).filter p ++ (xs.drop index).filter p := by
    rw [← List.filter_append, List.take_append_drop]
  rw [insertAt, List.filter_append, List.filter_cons_of_pos h, insertAt,
    List.countP_eq_length_filter, hsplit, List.take_left, List.drop_left]

theorem map_insertAt {β : Type} (f : α → β) (index : Nat) (x : α) (xs : List α) :
    (insertAt index x xs).map f = insertAt index (f x) (xs.map f) := by
  rw [insertAt, List.map_append, List.map_cons, List.map_take, List.map_drop, insertAt]

theorem find?_insertAt {p : α → Bool} {index : Nat} {x : α} {xs : List α} (hx : p x = true) :
    (insertAt index x xs).find? p = ((xs.take index).find? p).or (some x) := by
  rw [insertAt, List.find?_append, List.find?_cons_of_pos hx]

theorem subperm_filter_map {β : Type} {f : α → β} {q : β → Bool} {ys : List α}
    (h : ∀ x ∈ xs, q (f x) = true → p x = true) (hs : (xs.filter p).Subperm ys) :
    ((xs.map f).filter q).Subperm (ys.map f) := by
  have hfilter : xs.filter (q ∘ f) = (xs.filter p).filter (q ∘ f) := by
    rw [List.filter_filter]
    apply List.filter_congr
    intro x hx
    cases hq : q (f x) with
    | false => simp [hq]
    | true => simp [hq, h x hx hq]
  rw [List.filter_map, hfilter]
  obtain ⟨zs, hperm, hsub⟩ := List.filter_sublist.subperm.trans hs
  exact ⟨zs.map f, hperm.map f, hsub.map f⟩

/-- One past the last element that satisfies `q`, zero when there is none. -/
def afterLast (q : α → Bool) (xs : List α) : Nat := xs.length - xs.reverse.findIdx q

theorem afterLast_cons (q : α → Bool) (x : α) (xs : List α) :
    afterLast q (x :: xs) = if xs.any q then afterLast q xs + 1 else if q x then 1 else 0 := by
  rw [afterLast, List.reverse_cons, List.findIdx_append, List.length_reverse,
    List.length_cons, afterLast]
  by_cases hxs : xs.any q = true
  · have hlt : xs.reverse.findIdx q < xs.length := by
      have hex : ∃ y ∈ xs.reverse, q y = true := by simpa using hxs
      simpa using List.findIdx_lt_length.mpr hex
    rw [if_pos hlt, if_pos hxs]
    omega
  · have hge : ¬ xs.reverse.findIdx q < xs.length := by
      intro hlt
      have hex := List.findIdx_lt_length.mp
        (show xs.reverse.findIdx q < xs.reverse.length by simpa using hlt)
      exact hxs (by simpa using hex)
    rw [if_neg hge, if_neg hxs, List.findIdx_cons]
    cases q x with
    | true => simp
    | false =>
      simp only [List.findIdx_nil, Bool.false_eq_true, if_false, cond_false]
      omega

theorem take_afterLast_cons (q : α → Bool) (x : α) (xs : List α) :
    (x :: xs).take (afterLast q (x :: xs)) = if (x :: xs).any q then x :: xs.take (afterLast q xs)
    else [] := by
  rw [afterLast_cons, List.any_cons]
  by_cases hxs : xs.any q = true
  · simp [hxs]
  have hz : afterLast q xs = 0 := by
    have hlen : xs.reverse.findIdx q = xs.length := by
      rw [← List.length_reverse, List.findIdx_eq_length]
      simpa using hxs
    rw [afterLast, hlen, Nat.sub_self]
  cases hx : q x with
  | true => simp [hxs, hz]
  | false => simp [hxs]

theorem find?_take_afterLast (p q : α → Bool) (xs : List α) : (xs.take (afterLast q xs)).find? p =
      if (xs.dropWhile (fun x => !p x)).any q then (xs.dropWhile (fun x => !p x)).head?
      else none := by
  induction xs with
  | nil => rfl
  | cons x xs ih =>
    rw [take_afterLast_cons]
    cases hp : p x with
    | true =>
      by_cases hq : (x :: xs).any q = true
      · simp only [hq, if_true, List.find?_cons_of_pos hp, List.dropWhile_cons, hp, Bool.not_true,
          List.head?_cons, Bool.false_eq_true, if_false]
      · simp only [hq, if_false, List.find?_nil, List.dropWhile_cons, hp, Bool.not_true,
          Bool.false_eq_true]
    | false =>
      have hd : (x :: xs).dropWhile (fun x => !p x) = xs.dropWhile (fun x => !p x) := by simp [hp]
      rw [hd]
      by_cases hq : (x :: xs).any q = true
      · rw [if_pos hq, List.find?_cons_of_neg (by simp [hp]), ih]
      have hnone : (xs.dropWhile (fun x => !p x)).any q = false := by
        rw [List.any_eq_false]
        intro y hy hqy
        apply hq
        exact List.any_eq_true.mpr ⟨y,
          List.mem_cons_of_mem x ((List.dropWhile_suffix _).subset hy), hqy⟩
      rw [if_neg hq, hnone]
      rfl

variable [DecidableEq α]

theorem count_insertAt (index : Nat) (x y : α) (xs : List α) :
    (insertAt index x xs).count y = xs.count y + if x = y then 1 else 0 := by
  rw [(perm_insertAt index x xs).count_eq, List.count_cons]
  simp only [beq_iff_eq]

theorem takeWhile_erase {a : α} (ha : p a = true) (xs : List α) :
    (xs.erase a).takeWhile p = (xs.takeWhile p).erase a := by
  induction xs with
  | nil => rfl
  | cons x xs ih =>
    by_cases hx : x = a
    · subst hx
      simp [ha]
    rw [List.erase_cons_tail (by simpa using hx), List.takeWhile_cons, List.takeWhile_cons]
    split
    · rw [ih, List.erase_cons_tail (by simpa using hx)]
    · rfl

theorem count_erase_self_or (a b : α) (xs : List α) :
    (xs.erase a).count b = xs.count b - if a = b then 1 else 0 := by
  by_cases h : a = b
  · subst h
    simp [List.count_erase_self]
  · simp [h, List.count_erase_of_ne (Ne.symm h)]

/-- Remove every element that `removed` lists, but spare the first copy of one of them. -/
def removeAllBut (removed : List α) : Option α → List α → List α
  | _, [] => []
  | spared, x :: xs =>
    if x ∈ removed then
      if spared = some x then x :: removeAllBut removed none xs else removeAllBut removed spared xs
    else x :: removeAllBut removed spared xs

theorem removeAllBut_none (removed xs : List α) :
    removeAllBut removed none xs = xs.filter (· ∉ removed) := by
  induction xs with
  | nil => rfl
  | cons x xs ih =>
    rw [removeAllBut, List.filter_cons]
    by_cases hx : x ∈ removed
    · simp [hx, ih]
    · simp [hx, ih]

theorem filter_diff (p : α → Bool) (xs ys : List α) :
    (xs.diff ys).filter p = (xs.filter p).diff ys := by
  induction ys generalizing xs with
  | nil => rw [List.diff_nil, List.diff_nil]
  | cons y ys ih => rw [List.diff_cons, List.diff_cons, ih, List.erase_filter]

theorem diff_eq_self_iff {ys : List α} : xs.diff ys = xs ↔ ∀ y ∈ ys, y ∉ xs := by
  induction ys with
  | nil => simp
  | cons y ys ih =>
    rw [List.diff_cons, List.forall_mem_cons, ← ih]
    constructor
    · intro heq
      have hsub : xs.Sublist (xs.erase y) := by
        conv_lhs => rw [← heq]
        exact List.diff_sublist _ _
      have herase : xs.erase y = xs := List.erase_sublist.antisymm hsub
      rw [herase] at heq
      exact ⟨List.erase_eq_self_iff.mp herase, heq⟩
    · rintro ⟨hy, heq⟩
      rw [List.erase_of_not_mem hy, heq]

@[simp] theorem removeAllBut_nil (spared : Option α) (xs : List α) :
    removeAllBut [] spared xs = xs := by
  induction xs with
  | nil => rfl
  | cons x xs ih => simp [removeAllBut, ih]

theorem removeAllBut_sublist (removed : List α) (spared : Option α) (xs : List α) :
    (removeAllBut removed spared xs).Sublist xs := by
  induction xs generalizing spared with
  | nil => exact List.Sublist.refl []
  | cons x xs ih =>
    rw [removeAllBut]
    split
    · split
      · exact (ih none).cons_cons x
      · exact (ih spared).cons x
    · exact (ih spared).cons_cons x

theorem count_removeAllBut (removed : List α) (spared : Option α) (a : α) (xs : List α) :
    (removeAllBut removed spared xs).count a =
      if a ∈ removed then (if spared = some a then min 1 (xs.count a) else 0) else xs.count a := by
  induction xs generalizing spared with
  | nil => simp [removeAllBut]
  | cons x xs ih =>
    rw [removeAllBut]
    by_cases hx : x ∈ removed
    · by_cases hs : spared = some x
      · subst hs
        by_cases ha : x = a
        · subst ha
          simp [hx, ih]
        · simp [hx, ih, ha]
      · by_cases ha : x = a
        · subst ha
          simp [hx, hs, ih]
        · simp [hx, hs, ih, ha]
    · by_cases ha : x = a
      · subst ha
        simp [hx, ih]
      · simp [hx, ih, ha]

theorem takeWhile_removeAllBut {removed : List α} (hp : ∀ a ∈ removed, p a = true)
    (spared : Option α) (xs : List α) :
    (removeAllBut removed spared xs).takeWhile p =
    removeAllBut removed spared (xs.takeWhile p) := by
  induction xs generalizing spared with
  | nil => rfl
  | cons x xs ih =>
    by_cases hx : x ∈ removed
    · by_cases hs : spared = some x
      · simp [removeAllBut, hx, hs, hp x hx, ih]
      · simp [removeAllBut, hx, hs, hp x hx, ih]
    · by_cases hpx : p x = true
      · simp [removeAllBut, hx, hpx, ih]
      · simp [removeAllBut, hx, hpx]

end NodeManager.Occurrences
