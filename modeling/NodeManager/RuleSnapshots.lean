import Mathlib.Data.List.Forall2
import NodeManager.JsonValues

namespace NodeManager.RuleSnapshots

open JsonValues

abbrev Rule := Nat

structure Snapshot where
  rules : List Rule := []
  leases : Nat := 0
  retired : List Rule := []
  deriving DecidableEq, Repr

/-- `options` is what each rule object was constructed from, `closed` every call of `Close`. -/
structure Router where
  rules : List Rule := []
  made : Nat := 0
  snapshots : Nat → Snapshot := fun _ => {}
  addedRules : Option Nat := none
  constructed : Nat := 0
  options : Rule → Json := fun _ => .null
  closed : List Rule := []

namespace Router

def ofRules (list : List Json) : Router where
  rules := List.range list.length
  constructed := list.length
  options := fun rule => list.getD rule .null

def currentRules (r : Router) : List Rule :=
  match r.addedRules with
  | some snapshot => (r.snapshots snapshot).rules
  | none => r.rules

def setSnapshot (r : Router) (index : Nat) (snapshot : Snapshot) : Router :=
  { r with snapshots := Function.update r.snapshots index snapshot }

def newSnapshot (r : Router) (snapshot : Snapshot) : Router :=
  { r.setSnapshot r.made snapshot with made := r.made + 1 }

def closeRules (r : Router) (rules : List Rule) : Router := { r with closed := r.closed ++ rules }

def newRule (r : Router) (option : Json) : Router :=
  { r with
    constructed := r.constructed + 1, options := Function.update r.options r.constructed option }

def loaded (r : Router) : Router × Nat :=
  match r.addedRules with
  | some snapshot => (r, snapshot)
  | none => (r.newSnapshot { rules := r.rules }, r.made)

def stored (r : Router) : Router := { r.loaded.1 with addedRules := some r.loaded.2 }

def acquireRules (r : Router) : Router × Nat :=
  let old := r.loaded.1
  let snapshot := r.loaded.2
  ({ old.setSnapshot snapshot { old.snapshots snapshot with
    leases := (old.snapshots snapshot).leases + 1 } with
    addedRules := some snapshot }, snapshot)

def settle (r : Router) (index : Nat) : Router :=
  if (r.snapshots index).leases = 0 then
    (r.closeRules (r.snapshots index).retired).setSnapshot index { r.snapshots index with
      retired := [] }
  else r

def releaseRules (r : Router) (index : Nat) : Router :=
  (r.setSnapshot index { r.snapshots index with
    leases := (r.snapshots index).leases - 1 }).settle index

end Router

inductive Fate
  | works
  | newFails
  | startFails
  deriving DecidableEq, Repr

structure Wanted where
  option : Json
  previous : Option Nat := none
  fate : Fate := .works

structure PreparedRules where
  next : List Rule
  added : List Rule
  retired : List Rule
  deriving DecidableEq, Repr

namespace Router

def prepareRules (previous : List Rule) : List Wanted → Router → List Rule → List Rule →
    Router × Option (List Rule × List Rule)
  | [], r, next, added => (r, some (next, added))
  | wanted :: rest, r, next, added =>
    match wanted.previous with
    | some index => prepareRules previous rest r (next ++ previous[index]?.toList) added
    | none =>
      match wanted.fate with
      | .newFails => (r.closeRules added, none)
      | .startFails => ((r.newRule wanted.option).closeRules (added ++ [r.constructed]), none)
      | .works =>
        prepareRules previous rest (r.newRule wanted.option) (next ++ [r.constructed])
          (added ++ [r.constructed])

def prepareAddedRules (r : Router) (wanted : List Wanted) : Router × Option PreparedRules :=
  let result := prepareRules r.currentRules wanted r [] []
  (result.1, result.2.map (fun lists =>
    ⟨lists.1, lists.2, r.currentRules.filter (fun rule => rule ∉ lists.1)⟩))

def publishRules (r : Router) (p : PreparedRules) : Router :=
  let old := r.loaded.1
  let snapshot := r.loaded.2
  let retiring := old.setSnapshot snapshot { old.snapshots snapshot with retired := p.retired }
  ({ retiring.newSnapshot { rules := p.next } with
    addedRules := some retiring.made }).settle snapshot

def abortRules (r : Router) (p : PreparedRules) : Router := r.closeRules p.added

structure Builds (r r' : Router) (k : Nat) : Prop where
  rules : r'.rules = r.rules
  made : r'.made = r.made
  snapshots : r'.snapshots = r.snapshots
  addedRules : r'.addedRules = r.addedRules
  constructed : r'.constructed = r.constructed + k
  options : ∀ rule, rule < r.constructed → r'.options rule = r.options rule

theorem Builds.refl (r : Router) : Builds r r 0 := ⟨rfl, rfl, rfl, rfl, rfl, fun _ _ => rfl⟩

variable {r r' : Router}

theorem Builds.currentRules {k : Nat} (h : Builds r r' k) : r'.currentRules = r.currentRules := by
  rw [Router.currentRules, Router.currentRules, h.rules, h.snapshots, h.addedRules]

theorem Builds.newRule {k : Nat} {option : Json} (h : Builds (r.newRule option) r' k) :
    Builds r r' (k + 1) where
  rules := h.rules
  made := h.made
  snapshots := h.snapshots
  addedRules := h.addedRules
  constructed := by rw [h.constructed, Router.newRule, Nat.add_right_comm, Nat.add_assoc]
  options rule hrule := (h.options rule (Nat.lt_succ_of_lt hrule)).trans
    (Function.update_of_ne (Nat.ne_of_lt hrule) _ _)

theorem prepareRules_cases (previous : List Rule) (wanted : List Wanted) (r : Router)
    (next added : List Rule) :
    ∃ k, Builds r (prepareRules previous wanted r next added).1 k ∧
      (((prepareRules previous wanted r next added).2 = none ∧
          (prepareRules previous wanted r next added).1.closed = r.closed ++
          (added ++ List.range' r.constructed k)) ∨
        ((prepareRules previous wanted r next added).1.closed = r.closed ∧
          ∃ tail, (prepareRules previous wanted r next added).2 =
              some (next ++ tail, added ++ List.range' r.constructed k) ∧
            (∀ rule ∈ tail, rule ∈ previous ∨ rule ∈ List.range' r.constructed k) ∧
            ∀ rule ∈ List.range' r.constructed k, rule ∈ tail)) := by
  induction wanted generalizing r next added with
  | nil => exact ⟨0, .refl r, .inr ⟨rfl, [], by simp [prepareRules], nofun, nofun⟩⟩
  | cons w rest ih =>
    unfold prepareRules
    split
    next index _ =>
      obtain ⟨k, hbuilds, hfail | ⟨hclosed, tail, hlists, honly, hall⟩⟩ :=
        ih r (next ++ previous[index]?.toList) added
      · exact ⟨k, hbuilds, .inl hfail⟩
      refine ⟨k, hbuilds, .inr ⟨hclosed, previous[index]?.toList ++ tail, ?_, fun rule hrule => ?_,
        fun rule hrule => ?_⟩⟩
      · rw [hlists, List.append_assoc]
      · obtain hrule | hrule := List.mem_append.mp hrule
        · exact .inl (List.mem_of_getElem? (Option.mem_toList.mp hrule))
        · exact honly rule hrule
      · exact List.mem_append_right _ (hall rule hrule)
    next =>
      split
      next => exact ⟨0, ⟨rfl, rfl, rfl, rfl, rfl, fun _ _ => rfl⟩, .inl ⟨rfl, by simp [closeRules]⟩⟩
      next =>
        have hbuilds : Builds (r.newRule w.option)
          ((r.newRule w.option).closeRules (added ++ [r.constructed])) 0 :=
          ⟨rfl, rfl, rfl, rfl, rfl, fun _ _ => rfl⟩
        exact ⟨1, hbuilds.newRule, .inl ⟨rfl, rfl⟩⟩
      next =>
        obtain ⟨k, hbuilds, ⟨hnone, hclosed⟩ | ⟨hclosed, tail, hlists, honly, hall⟩⟩ :=
          ih (r.newRule w.option) (next ++ [r.constructed]) (added ++ [r.constructed])
        · refine ⟨k + 1, hbuilds.newRule, .inl ⟨hnone, ?_⟩⟩
          rw [hclosed, List.range'_succ, List.append_assoc]
          rfl
        refine ⟨k + 1, hbuilds.newRule, .inr ⟨hclosed, r.constructed :: tail, ?_, ?_, ?_⟩⟩
        · rw [hlists, List.range'_succ, List.append_assoc, List.append_assoc]
          rfl
        · intro rule hrule
          obtain rfl | hrule := List.mem_cons.mp hrule
          · exact .inr List.mem_cons_self
          · exact (honly rule hrule).imp_right (List.mem_cons_of_mem _)
        · intro rule hrule
          obtain rfl | hrule := List.mem_cons.mp hrule
          · exact List.mem_cons_self
          · exact List.mem_cons_of_mem _ (hall rule hrule)

theorem loaded_eq {c : Nat} (h : r.addedRules = some c) : r.loaded = (r, c) := by
  rw [loaded, h]

theorem stored_eq {c : Nat} (h : r.addedRules = some c) : r.stored = r := by
  rw [stored, loaded_eq h, ← h]

theorem prepareRules_next {previous : List Rule} {wanted : List Wanted} {next added : List Rule}
    {lists : List Rule × List Rule}
    (hrange : ∀ w ∈ wanted, ∀ k, w.previous = some k → k < previous.length)
    (hold : ∀ rule ∈ previous, rule < r.constructed)
    (h : prepareRules previous wanted r next added = (r', some lists)) :
    ∃ tail, lists.1 = next ++ tail ∧ List.Forall₂ (fun w rule =>
      (∀ k, w.previous = some k → previous[k]? = some rule) ∧
        (w.previous = none → r.constructed ≤ rule ∧ r'.options rule = w.option)) wanted tail := by
  induction wanted generalizing r next added with
  | nil =>
    cases h
    exact ⟨[], (List.append_nil _).symm, .nil⟩
  | cons w rest ih =>
    have hrest : ∀ w ∈ rest, ∀ k, w.previous = some k → k < previous.length :=
      fun w' hw' => hrange w' (List.mem_cons_of_mem w hw')
    unfold prepareRules at h
    split at h
    next index hindex =>
      have hlt := hrange w List.mem_cons_self index hindex
      rw [List.getElem?_eq_getElem hlt] at h
      obtain ⟨tail, hlists, hforall⟩ := ih hrest hold h
      refine ⟨previous[index] :: tail, by rw [hlists]; simp,
        .cons ⟨fun k hk => ?_, fun hnone => ?_⟩ hforall⟩
      · cases hindex.symm.trans hk
        exact List.getElem?_eq_getElem hlt
      · cases hindex.symm.trans hnone
    next hnone =>
      split at h
      · cases h
      · cases h
      obtain ⟨k, hbuilds, -⟩ := prepareRules_cases previous rest (r.newRule w.option)
        (next ++ [r.constructed]) (added ++ [r.constructed])
      rw [h] at hbuilds
      obtain ⟨tail, hlists, hforall⟩ :=
        ih hrest (fun rule hrule => Nat.lt_succ_of_lt (hold rule hrule)) h
      refine ⟨r.constructed :: tail, by rw [hlists]; simp,
        .cons ⟨fun k hk => ?_, fun _ => ⟨Nat.le_refl _, ?_⟩⟩ ?_⟩
      · cases hnone.symm.trans hk
      · exact (hbuilds.options _ (Nat.lt_succ_self _)).trans (Function.update_self _ _ _)
      · exact hforall.imp (fun w' rule hrule =>
          ⟨hrule.1, fun hn => ⟨Nat.le_of_succ_le (hrule.2 hn).1, (hrule.2 hn).2⟩⟩)

theorem settle_snapshots_ne (r : Router) {i j : Nat} (h : j ≠ i) :
    (r.settle i).snapshots j = r.snapshots j := by
  unfold settle
  split
  · exact Function.update_of_ne h _ _
  · rfl

theorem settle_rules (r : Router) (i j : Nat) :
    ((r.settle i).snapshots j).rules = (r.snapshots j).rules := by
  by_cases h : j = i
  · unfold settle
    split <;> simp [setSnapshot, h]
  · rw [r.settle_snapshots_ne h]

theorem settle_leases (r : Router) (i j : Nat) :
    ((r.settle i).snapshots j).leases = (r.snapshots j).leases := by
  by_cases h : j = i
  · unfold settle
    split <;> simp [setSnapshot, h]
  · rw [r.settle_snapshots_ne h]

theorem settle_retired_self (r : Router) (i : Nat) :
    ((r.settle i).snapshots i).retired = if (r.snapshots i).leases = 0 then []
    else (r.snapshots i).retired := by
  unfold settle
  split <;> simp [setSnapshot, *]

theorem settle_closed (r : Router) (i : Nat) :
    (r.settle i).closed = if (r.snapshots i).leases = 0 then r.closed ++ (r.snapshots i).retired
    else r.closed := by
  unfold settle
  split <;> rfl

theorem settle_same (r : Router) (i : Nat) :
    (r.settle i).rules = r.rules ∧ (r.settle i).made = r.made ∧
    (r.settle i).addedRules = r.addedRules ∧ (r.settle i).constructed = r.constructed ∧
      (r.settle i).options = r.options := by
  unfold settle
  split <;> exact ⟨rfl, rfl, rfl, rfl, rfl⟩

theorem currentRules_congr (hfirst : r'.rules = r.rules) (hadded : r'.addedRules = r.addedRules)
    (hrules : ∀ i, (r'.snapshots i).rules = (r.snapshots i).rules) :
    r'.currentRules = r.currentRules := by
  unfold currentRules
  rw [hadded, hfirst]
  split
  · exact hrules _
  · rfl

theorem stored_none (h : r.addedRules = none) :
    r.stored = { r.newSnapshot { rules := r.rules } with addedRules := some r.made } := by
  rw [stored, loaded, h]

theorem stored_snapshots (h : r.addedRules = none) (i : Nat) :
    r.stored.snapshots i = if i = r.made then { rules := r.rules } else r.snapshots i := by
  simp only [stored_none h, newSnapshot, setSnapshot, Function.update_apply]

theorem stored_same (r : Router) :
    r.stored.rules = r.rules ∧ r.stored.closed = r.closed ∧
    r.stored.constructed = r.constructed := by
  cases h : r.addedRules with
  | some c =>
    rw [stored_eq h]
    exact ⟨rfl, rfl, rfl⟩
  | none =>
    rw [stored_none h]
    exact ⟨rfl, rfl, rfl⟩

theorem stored_currentRules (r : Router) : r.stored.currentRules = r.currentRules := by
  cases h : r.addedRules with
  | some c => rw [stored_eq h]
  | none => simp [stored_none h, currentRules, h, newSnapshot, setSnapshot]

def replaced (r : Router) (c : Nat) (p : PreparedRules) : Router :=
  let retiring := r.setSnapshot c { r.snapshots c with retired := p.retired }
  { retiring.newSnapshot { rules := p.next } with addedRules := some retiring.made }

theorem replaced_snapshots (r : Router) (c : Nat) (p : PreparedRules) (i : Nat) :
    (r.replaced c p).snapshots i = if i = r.made then { rules := p.next }
      else if i = c then { r.snapshots c with retired := p.retired } else r.snapshots i := by
  simp only [replaced, newSnapshot, setSnapshot, Function.update_apply]

theorem publishRules_eq (r : Router) (p : PreparedRules) :
    r.publishRules p = (r.stored.replaced r.loaded.2 p).settle r.loaded.2 := rfl

theorem prepareAddedRules_cases (r : Router) (wanted : List Wanted) :
    ∃ k, Builds r (r.prepareAddedRules wanted).1 k ∧
      (((r.prepareAddedRules wanted).2 = none ∧
          (r.prepareAddedRules wanted).1.closed = r.closed ++ List.range' r.constructed k) ∨
        ((r.prepareAddedRules wanted).1.closed = r.closed ∧
          ∃ next, (r.prepareAddedRules wanted).2 =
              some ⟨next, List.range' r.constructed k,
                r.currentRules.filter (fun rule => rule ∉ next)⟩ ∧
            (∀ rule ∈ next, rule ∈ r.currentRules ∨ rule ∈ List.range' r.constructed k) ∧
            ∀ rule ∈ List.range' r.constructed k, rule ∈ next)) := by
  obtain ⟨k, hbuilds, ⟨hnone, hclosed⟩ | ⟨hclosed, tail, hlists, honly, hall⟩⟩ :=
    prepareRules_cases r.currentRules wanted r [] []
  · exact ⟨k, hbuilds, .inl ⟨by rw [prepareAddedRules, hnone]; rfl, hclosed⟩⟩
  · exact ⟨k, hbuilds, .inr ⟨hclosed, tail, by rw [prepareAddedRules, hlists]; rfl, honly, hall⟩⟩

end Router

end NodeManager.RuleSnapshots
