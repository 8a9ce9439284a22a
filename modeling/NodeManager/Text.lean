import Mathlib.Data.List.Sort
import Mathlib.Data.List.Dedup
import Mathlib.Data.List.DropRight
import Mathlib.Data.String.Basic

namespace NodeManager.Text

def isSpace (c : Char) : Bool :=
  c.toNat ∈ [9, 10, 11, 12, 13, 28, 29, 30, 31, 32, 133, 160, 5760, 8192, 8193, 8194,
    8195, 8196, 8197, 8198, 8199, 8200, 8201, 8202, 8232, 8233, 8239, 8287, 12288]

def stripWith (drop : Char → Bool) (s : String) : String :=
  String.ofList ((s.toList.dropWhile drop).reverse.dropWhile drop).reverse

def strip (s : String) : String := stripWith isSpace s

def startsWith (s p : String) : Bool := p.toList.isPrefixOf s.toList

def dropPrefix (s p : String) : String := String.ofList (s.toList.drop p.length)

def rsplit (sep : Char) : List Char → Option (List Char × List Char)
  | [] => none
  | c :: text =>
    match rsplit sep text with
    | some (head, tail) => some (c :: head, tail)
    | none => if c = sep then some ([], text) else none

/-- `sorted(names)`; Python and Lean both compare strings by code points. -/
def sorted (names : List String) : List String := names.insertionSort (· ≤ ·)

def sortedSet (names : List String) : List String := sorted names.dedup

variable {names : List String}

@[simp] theorem mem_sorted {n : String} : n ∈ sorted names ↔ n ∈ names :=
  List.mem_insertionSort _

@[simp] theorem mem_sortedSet {n : String} : n ∈ sortedSet names ↔ n ∈ names := by
  simp [sortedSet]

theorem sortedSet_nodup (names : List String) : (sortedSet names).Nodup :=
  (List.perm_insertionSort _ _).nodup_iff.mpr (List.nodup_dedup names)

theorem sorted_pairwise (names : List String) : (sorted names).Pairwise (· ≤ ·) :=
  List.pairwise_insertionSort _ _

theorem sortedSet_congr {xs ys : List String} (h : ∀ n, n ∈ xs ↔ n ∈ ys) :
    sortedSet xs = sortedSet ys := by
  have hp : (sortedSet xs).Perm (sortedSet ys) := by
    apply (List.perm_ext_iff_of_nodup (sortedSet_nodup xs) (sortedSet_nodup ys)).mpr
    intro n
    simpa only [mem_sortedSet] using h n
  exact hp.eq_of_pairwise' (sorted_pairwise _) (sorted_pairwise _)

theorem sorted_sortedSet (names : List String) : sorted (sortedSet names) = sortedSet names :=
  (sorted_pairwise names.dedup).insertionSort_eq

variable {s : String}

theorem startsWith_iff {p : String} : startsWith s p = true ↔ ∃ t, s = p ++ t := by
  rw [startsWith, List.isPrefixOf_iff_prefix]
  constructor
  · rintro ⟨t, ht⟩
    refine ⟨String.ofList t, String.toList_inj.mp ?_⟩
    rw [String.toList_append, String.toList_ofList, ht]
  · rintro ⟨t, rfl⟩
    exact ⟨t.toList, (String.toList_append).symm⟩

theorem append_right_injective (p : String) {t : String} (h : p ++ s = p ++ t) : s = t := by
  have hl := congrArg String.toList h
  rw [String.toList_append, String.toList_append] at hl
  exact String.toList_inj.mp (List.append_cancel_left hl)

theorem dropPrefix_append (p t : String) : dropPrefix (p ++ t) p = t := by
  rw [dropPrefix, String.toList_append, ← String.length_toList, List.drop_left,
    String.ofList_toList]

theorem stripWith_stripWith (drop : Char → Bool) (s : String) :
    stripWith drop (stripWith drop s) = stripWith drop s := by
  have hfirst : ∀ cs : List Char, cs.IsPrefix (s.toList.dropWhile drop) →
      cs.dropWhile drop = cs := by
    intro cs hpre
    rw [List.dropWhile_eq_self_iff]
    intro hlt hc
    obtain ⟨rest, hrest⟩ := hpre
    have hself := List.dropWhile_eq_self_iff.mp (List.dropWhile_idempotent drop s.toList)
    have hlen : 0 < (s.toList.dropWhile drop).length := by
      rw [← hrest, List.length_append]
      omega
    apply hself hlen
    have hget : (s.toList.dropWhile drop)[0] = cs[0] := by
      simp only [← hrest, List.getElem_append_left hlt]
    rw [hget]
    exact hc
  have hpre : ((s.toList.dropWhile drop).reverse.dropWhile drop).reverse.IsPrefix
    (s.toList.dropWhile drop) :=
    List.rdropWhile_prefix drop _
  unfold stripWith
  rw [String.toList_ofList, hfirst _ hpre, List.reverse_reverse, List.dropWhile_idempotent]

theorem strip_strip (s : String) : strip (strip s) = strip s := stripWith_stripWith isSpace s

theorem strip_eq_self (h : ∀ c ∈ s.toList, isSpace c = false) : strip s = s := by
  have hdrop : ∀ cs : List Char, (∀ c ∈ cs, isSpace c = false) → cs.dropWhile isSpace = cs := by
    intro cs hcs
    cases cs with
    | nil => rfl
    | cons c cs => rw [List.dropWhile_cons_of_neg (by simp [hcs c List.mem_cons_self])]
  rw [strip, stripWith, hdrop _ h, hdrop _ (fun c hc => h c (List.mem_reverse.mp hc)),
    List.reverse_reverse, String.ofList_toList]

end NodeManager.Text
