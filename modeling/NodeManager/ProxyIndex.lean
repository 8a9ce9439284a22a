import NodeManager.OutboundTags

namespace NodeManager.ProxyIndex

open Text Singbox Identities Bindings OutboundTags

def isNumber (h : Host) (text : List Char) : Bool := !text.isEmpty && text.all (isDigit h)

def tails (h : Host) : Nat → List Char → List String
  | 0, _ => []
  | rounds + 1, tail =>
    match rsplit '-' tail with
    | none => []
    | some (tail, suffix) =>
      if isNumber h suffix then String.ofList tail :: tails h rounds tail else []

def multiple (h : Host) (ids : List String) (outbounds : List Outbound) : List String :=
  outbounds.flatMap (fun outbound =>
    if startsWith outbound.tag userOutboundPrefix then
      (tails h outbound.tag.length (dropPrefix outbound.tag
        userOutboundPrefix).toList).filter (· ∈ ids)
    else [])

inductive Numbered (h : Host) (text : List Char) : Nat → List Char → Prop
  | none : Numbered h text 0 text
  | more {n tail number} (earlier : Numbered h text n tail) (digits : isNumber h number = true) :
    Numbered h text (n + 1) (tail ++ '-' :: number)

variable {h : Host} {u : String} {tail head suffix text : List Char} {n : Nat}
  {outbounds : List Outbound} {ids : List String}

theorem rsplit_eq_none (hsuffix : '-' ∉ suffix) : rsplit '-' suffix = none := by
  induction suffix with
  | nil => rfl
  | cons c suffix ih =>
    obtain ⟨hc, hsuffix⟩ := not_or.mp (List.mem_cons.not.mp hsuffix)
    rw [rsplit, ih hsuffix, if_neg (Ne.symm hc)]

theorem rsplit_append (hsuffix : '-' ∉ suffix) :
    rsplit '-' (head ++ '-' :: suffix) = some (head, suffix) := by
  induction head with
  | nil => simp [rsplit, rsplit_eq_none hsuffix]
  | cons c head ih => rw [List.cons_append, rsplit, ih]

theorem eq_of_rsplit (hr : rsplit '-' tail = some (head, suffix)) :
    tail = head ++ '-' :: suffix := by
  induction tail generalizing head with
  | nil => cases hr
  | cons c tail ih =>
    rw [rsplit] at hr
    split at hr
    next hsome =>
      cases hr
      rw [ih hsome, List.cons_append]
    next =>
      split at hr
      next hc =>
        cases hr
        rw [hc, List.nil_append]
      · cases hr

theorem not_mem_number (hnumber : isNumber h suffix = true) : '-' ∉ suffix := by
  intro hmem
  have hall := List.all_eq_true.mp (Bool.and_eq_true_iff.mp hnumber).2 '-' hmem
  cases hall

theorem numbered_succ : Numbered h text (n + 1) tail ↔
    ∃ head suffix, rsplit '-' tail = some (head, suffix) ∧ isNumber h suffix = true ∧
    Numbered h text n head := by
  constructor
  · rintro (_ | ⟨earlier, digits⟩)
    exact ⟨_, _, rsplit_append (not_mem_number digits), digits, earlier⟩
  rintro ⟨head, suffix, hsplit, digits, earlier⟩
  rw [eq_of_rsplit hsplit]
  exact .more earlier digits

theorem exists_numbered : (∃ n, Numbered h text n head) ↔ head = text ∨
    ∃ n, Numbered h text (n + 1) head := by
  constructor
  · rintro ⟨n, hn⟩
    cases n with
    | zero =>
      cases hn
      exact .inl rfl
    | succ n => exact .inr ⟨n, hn⟩
  · rintro (rfl | ⟨n, hn⟩)
    · exact ⟨0, .none⟩
    · exact ⟨n + 1, hn⟩

theorem mem_tails {rounds : Nat} (hrounds : tail.length ≤ rounds) :
    u ∈ tails h rounds tail ↔ ∃ n, Numbered h u.toList (n + 1) tail := by
  induction rounds generalizing tail with
  | zero =>
    rw [List.length_eq_zero_iff.mp (Nat.le_zero.mp hrounds)]
    simp [tails, numbered_succ, rsplit]
  | succ rounds ih =>
    simp only [numbered_succ, tails]
    cases hr : rsplit '-' tail with
    | none => simp
    | some found =>
      obtain ⟨head, suffix⟩ := found
      have hshort : head.length ≤ rounds := by
        rw [eq_of_rsplit hr, List.length_append, List.length_cons] at hrounds
        omega
      have hself : u = String.ofList head ↔ head = u.toList := by
        rw [← String.toList_inj, String.toList_ofList, eq_comm]
      by_cases hnumber : isNumber h suffix = true
      · simp [hnumber, ih hshort, hself, ← exists_numbered]
      · simp [hnumber]

def Suffixed (h : Host) (outbounds : List Outbound) (u : String) (n : Nat) : Prop :=
  ∃ outbound ∈ outbounds, ∃ tail, outbound.tag = userOutboundPrefix ++ tail ∧
    Numbered h u.toList n tail.toList

/-- Some outbound is attributed to the user, and it is not the one with the user's own tag. -/
def Attributed (h : Host) (outbounds : List Outbound) (u : String) : Prop :=
  ∃ outbound ∈ outbounds, outbound.tag ≠ outboundTag u ∧
    isUserProxyOutboundTag h outbound.tag u = true

theorem mem_multiple : u ∈ multiple h ids outbounds ↔ u ∈ ids ∧
    ∃ n, Suffixed h outbounds u (n + 1) := by
  have htag (tag : String) : u ∈ (if startsWith tag userOutboundPrefix then
      (tails h tag.length (dropPrefix tag userOutboundPrefix).toList).filter (· ∈ ids) else []) ↔
      u ∈ ids ∧ ∃ n tail, tag = userOutboundPrefix ++ tail ∧
        Numbered h u.toList (n + 1) tail.toList := by
    by_cases hs : startsWith tag userOutboundPrefix = true
    · obtain ⟨tail, rfl⟩ := startsWith_iff.mp hs
      have hrounds : tail.toList.length ≤ (userOutboundPrefix ++ tail).length := by
        rw [String.length_append, String.length_toList]
        exact Nat.le_add_left _ _
      rw [if_pos hs, dropPrefix_append, List.mem_filter, mem_tails hrounds,
        decide_eq_true_eq, and_comm]
      refine and_congr_right (fun _ => exists_congr (fun n => ⟨fun hn => ⟨tail, rfl, hn⟩, ?_⟩))
      rintro ⟨other, heq, hn⟩
      exact append_right_injective _ heq ▸ hn
    · rw [if_neg hs]
      refine ⟨nofun, ?_⟩
      rintro ⟨-, n, tail, rfl, -⟩
      exact absurd (startsWith_iff.mpr ⟨tail, rfl⟩) hs
  simp only [multiple, List.mem_flatMap, htag, Suffixed]
  constructor
  · rintro ⟨outbound, ho, hu, n, hn⟩
    exact ⟨hu, n, outbound, ho, hn⟩
  · rintro ⟨hu, n, outbound, ho, hn⟩
    exact ⟨outbound, ho, hu, n, hn⟩

theorem attributed_iff : Attributed h outbounds u ↔ Suffixed h outbounds u 1 := by
  refine exists_congr (fun outbound => and_congr_right (fun _ => ?_))
  rw [isUserProxyOutboundTag_iff]
  constructor
  · rintro ⟨hne, heq | ⟨digits, htag, hnil, hall⟩⟩
    · exact absurd heq hne
    · refine ⟨String.ofList (u.toList ++ '-' :: digits), String.toList_inj.mp ?_, ?_⟩
      · rw [htag, outboundTag, String.toList_append, String.toList_append, String.toList_ofList,
          List.append_assoc]
      · rw [String.toList_ofList]
        exact .more .none (by simpa [isNumber, hnil] using hall)
  · rintro ⟨tail, htag, hone⟩
    generalize hchars : tail.toList = chars at hone
    obtain _ | ⟨_ | _, hnumber⟩ := hone
    next number =>
      have hlist : outbound.tag.toList = (outboundTag u).toList ++ '-' :: number := by
        rw [htag, outboundTag, String.toList_append, String.toList_append, hchars,
          List.append_assoc]
      rw [isNumber, Bool.and_eq_true, List.all_eq_true] at hnumber
      refine ⟨fun heq => ?_, .inr ⟨number, hlist, by simpa using hnumber.1, hnumber.2⟩⟩
      rw [heq] at hlist
      simp at hlist

/-- The index agrees with the attribution if tags with several numbers do not matter. -/
theorem multiple_agrees_iff (hu : u ∈ ids) :
    (u ∈ multiple h ids outbounds ↔ Attributed h outbounds u) ↔
      ((∃ n, Suffixed h outbounds u (n + 2)) → Attributed h outbounds u) := by
  rw [mem_multiple, attributed_iff]
  constructor
  · rintro hagree ⟨n, hn⟩
    exact hagree.mp ⟨hu, n + 1, hn⟩
  · intro hnested
    refine ⟨?_, fun h => ⟨hu, 0, h⟩⟩
    rintro ⟨-, n, hn⟩
    cases n with
    | zero => exact hn
    | succ n => exact hnested ⟨n, hn⟩

def proxies (tails : List String) : List Outbound :=
  tails.map (fun tail => { type := .socks, tag := outboundTag tail })

theorem one_number_agrees : "a" ∈ multiple default ["a"] (proxies ["a-1"]) ↔
    Attributed default (proxies ["a-1"]) "a" :=
  (multiple_agrees_iff List.mem_cons_self).mpr
    (fun _ => ⟨_, List.mem_cons_self, by decide, by decide⟩)

/-- The tag belongs to a user a-1, if to any. -/
theorem two_numbers_reported :
    "a" ∈ multiple default ["a"] (proxies ["a-1-2"]) ∧
    ¬Attributed default (proxies ["a-1-2"]) "a" :=
  ⟨by decide, by
    rintro ⟨outbound, ho, -, h⟩
    cases List.mem_singleton.mp ho
    exact absurd h (by decide)⟩

end NodeManager.ProxyIndex
