import Mathlib.Data.List.Nodup
import NodeManager.RuleLeases

namespace NodeManager.RuleAccounts

open RuleSnapshots RuleLeases Runs

def retiring (r : Router) : List Rule :=
  (List.range r.made).flatMap (fun i => (r.snapshots i).retired)

def adding (s : State) : List Rule := (s.pending.map PreparedRules.added).getD []

def places (s : State) : List Rule :=
  s.router.closed ++ s.router.currentRules ++ retiring s.router ++ adding s

/-- Every rule object is in one place, once. -/
structure Accounted (s : State) : Prop where
  counted : Counted s
  places : (places s).Perm (List.range s.router.constructed)
  pending : ∀ p, s.pending = some p → (p.next ++ p.retired).Perm (s.router.currentRules ++ p.added)

theorem flatMap_perm {f g : Nat → List Rule} {c n : Nat} (hc : c < n) (h : ∀ i, i ≠ c → g i = f i) :
    (f c ++ (List.range n).flatMap g).Perm (g c ++ (List.range n).flatMap f) := by
  induction n with
  | zero => cases hc
  | succ n ih =>
    rw [List.range_succ, List.flatMap_append, List.flatMap_append, List.flatMap_singleton,
      List.flatMap_singleton]
    by_cases heq : c = n
    · subst heq
      have hsame : (List.range c).flatMap g = (List.range c).flatMap f :=
        List.flatMap_congr (fun i hi => h i (Nat.ne_of_lt (List.mem_range.mp hi)))
      rw [hsame]
      refine List.perm_iff_count.mpr (fun rule => ?_)
      simp only [List.count_append]
      omega
    · rw [h n (Ne.symm heq), ← List.append_assoc, ← List.append_assoc]
      exact (ih (Nat.lt_of_le_of_ne (Nat.le_of_lt_succ hc) heq)).append_right _

variable {r r' : Router}

theorem retiring_congr (hmade : r'.made = r.made)
    (h : ∀ i, (r'.snapshots i).retired = (r.snapshots i).retired) :
    retiring r' = retiring r := by
  simp only [retiring, hmade, h]

variable {c : Nat}

theorem retiring_perm (hc : c < r.made) (hmade : r'.made = r.made)
    (h : ∀ i, i ≠ c → (r'.snapshots i).retired = (r.snapshots i).retired) :
    ((r.snapshots c).retired ++ retiring r').Perm ((r'.snapshots c).retired ++ retiring r) := by
  rw [retiring, hmade]
  exact flatMap_perm hc h

variable {s : State} {wanted : List Wanted} {p : PreparedRules}

theorem retiring_stored (r : Router) : retiring r.stored = retiring r := by
  cases h : r.addedRules with
  | some c => rw [Router.stored_eq h]
  | none =>
    have hmade : r.stored.made = r.made + 1 := by rw [Router.stored_none h, Router.newSnapshot]
    have hsnapshots := Router.stored_snapshots h
    rw [retiring, hmade, List.range_succ, List.flatMap_append, List.flatMap_singleton,
      hsnapshots, if_pos rfl, List.append_nil]
    refine List.flatMap_congr (fun i hi => ?_)
    rw [hsnapshots, if_neg (Nat.ne_of_lt (List.mem_range.mp hi))]

theorem Accounted.same (h : Accounted s) {s' : State} (hcounted : Counted s')
    (hclosed : s'.router.closed = s.router.closed)
    (hcurrent : s'.router.currentRules = s.router.currentRules)
    (hretiring : retiring s'.router = retiring s.router) (hpending : s'.pending = s.pending)
    (hconstructed : s'.router.constructed = s.router.constructed) : Accounted s' := by
  refine ⟨hcounted, ?_, fun p hp => ?_⟩
  · rw [RuleAccounts.places, hclosed, hcurrent, hretiring, hconstructed, adding, hpending]
    exact h.places
  · rw [hcurrent]
    exact h.pending p (hpending ▸ hp)

theorem Accounted.stored (h : Accounted s) : Accounted { s with router := s.router.stored } :=
  h.same h.counted.stored s.router.stored_same.2.1 s.router.stored_currentRules
    (retiring_stored s.router) rfl s.router.stored_same.2.2

theorem Accounted.acquire (h : Accounted s) (hc : s.router.addedRules = some c) : Accounted { s with
      router := s.router.setSnapshot c { s.router.snapshots c with
        leases := (s.router.snapshots c).leases + 1 }
      leases := c :: s.leases } := by
  refine h.same (h.counted.acquire hc) rfl (Router.currentRules_congr rfl rfl (fun i => ?_))
    (retiring_congr rfl (fun i => ?_)) rfl rfl
  · by_cases heq : i = c <;> simp [Router.setSnapshot, heq]
  · by_cases heq : i = c <;> simp [Router.setSnapshot, heq]

theorem Accounted.release (h : Accounted s) (hc : c ∈ s.leases) :
    Accounted { s with router := s.router.releaseRules c, leases := s.leases.erase c } := by
  have hr := h.counted.released c
  have hcurrent := Router.currentRules_congr hr.first hr.addedRules hr.rules
  refine ⟨h.counted.release hc, ?_, fun p hp => ?_⟩
  · have hperm := retiring_perm (h.counted.lt_made hc) hr.made (fun i hi => by rw [hr.other i hi])
    rw [hr.self] at hperm
    refine List.Perm.trans ?_ (hr.constructed ▸ h.places)
    refine List.perm_iff_count.mpr (fun rule => ?_)
    have hcount := List.perm_iff_count.mp hperm rule
    simp only [RuleAccounts.places, adding, hr.closed, hcurrent]
    by_cases hzero : (s.leases.erase c).count c = 0
    · simp only [if_pos hzero, List.count_append, List.nil_append] at hcount ⊢
      omega
    · simp only [if_neg hzero, List.count_append] at hcount ⊢
      omega
  · rw [hcurrent]
    exact h.pending p hp

theorem Accounted.builds (h : Accounted s) {k : Nat}
    (hbuilds : Router.Builds s.router r' k) {pending : Option PreparedRules} {closed : List Rule}
    (hclosed : r'.closed = s.router.closed ++ closed)
    (hnew : (closed ++ (pending.map PreparedRules.added).getD []).Perm
      (adding s ++ List.range' s.router.constructed k))
    (hpending : ∀ p, pending = some p →
      (p.next ++ p.retired).Perm (s.router.currentRules ++ p.added)) :
    Accounted { s with router := r', pending := pending } := by
  refine ⟨h.counted.builds hbuilds pending, ?_, fun p hp => ?_⟩
  · have hretiring : retiring r' = retiring s.router :=
      retiring_congr hbuilds.made (fun i => by rw [hbuilds.snapshots])
    have hrange : List.range r'.constructed = List.range s.router.constructed ++
        List.range' s.router.constructed k := by
      rw [hbuilds.constructed, List.range_eq_range', List.range_eq_range', ← List.range'_append_1,
        Nat.zero_add]
    rw [hrange]
    refine List.perm_iff_count.mpr (fun rule => ?_)
    have hold := List.perm_iff_count.mp h.places rule
    have hcount := List.perm_iff_count.mp hnew rule
    simp only [RuleAccounts.places, adding, hclosed, hbuilds.currentRules, hretiring,
      List.count_append]
      at hold hcount ⊢
    omega
  · rw [hbuilds.currentRules]
    exact hpending p hp

theorem prepareRules_perm {previous : List Rule} {next added : List Rule}
    {lists : List Rule × List Rule}
    (h : Router.prepareRules previous wanted r next added = (r', some lists)) :
    ∃ k tail, lists = (next ++ tail, added ++ List.range' r.constructed k) ∧
      tail.Perm ((wanted.filterMap Wanted.previous).filterMap (fun index => previous[index]?) ++
        List.range' r.constructed k) := by
  induction wanted generalizing r next added with
  | nil =>
    cases h
    exact ⟨0, [], by simp, by simp⟩
  | cons w rest ih =>
    unfold Router.prepareRules at h
    split at h
    next index hindex =>
      obtain ⟨k, tail, hlists, hperm⟩ := ih h
      refine ⟨k, previous[index]?.toList ++ tail, by rw [hlists, List.append_assoc], ?_⟩
      rw [List.filterMap_cons_some hindex]
      cases hrule : previous[index]? with
      | none => simpa [hrule] using hperm
      | some rule => simpa [hrule] using hperm
    next hnone =>
      split at h
      · cases h
      · cases h
      obtain ⟨k, tail, hlists, hperm⟩ := ih h
      refine ⟨k + 1, r.constructed :: tail, ?_, ?_⟩
      · rw [hlists, List.range'_succ, List.append_assoc, List.append_assoc]
        rfl
      · rw [List.filterMap_cons_none hnone, List.range'_succ]
        exact (hperm.cons r.constructed).trans List.perm_middle.symm

theorem prepared_perm (hcurrent : r.currentRules.Nodup)
    (hbounded : ∀ rule ∈ r.currentRules, rule < r.constructed)
    (hwanted : (wanted.filterMap Wanted.previous).Nodup)
    (h : (r.prepareAddedRules wanted).2 = some p) :
    (p.next ++ p.retired).Perm (r.currentRules ++ p.added) := by
  obtain ⟨lists, hlists, rfl⟩ := Option.map_eq_some_iff.mp h
  obtain ⟨k, next, rfl, hnext⟩ := prepareRules_perm (Prod.ext rfl hlists)
  rw [List.nil_append, List.nil_append]
  generalize hdef : (wanted.filterMap Wanted.previous).filterMap
    (fun index => r.currentRules[index]?) = reused at hnext
  have hreused : reused.Nodup := by
    rw [← hdef]
    refine List.Nodup.filterMap (fun i j rule hi hj => ?_) hwanted
    obtain ⟨hi', hi⟩ := List.getElem?_eq_some_iff.mp hi
    obtain ⟨hj', hj⟩ := List.getElem?_eq_some_iff.mp hj
    exact (hcurrent.getElem_inj_iff).mp (hi.trans hj.symm)
  have hsubset : ∀ rule ∈ reused, rule ∈ r.currentRules := fun rule hrule => by
    rw [← hdef] at hrule
    obtain ⟨index, -, hindex⟩ := List.mem_filterMap.mp hrule
    exact List.mem_of_getElem? hindex
  have hkept (rule : Rule) (hrule : rule ∈ r.currentRules) : rule ∈ next ↔ rule ∈ reused := by
    rw [hnext.mem_iff, List.mem_append, or_iff_left]
    intro hnew
    exact Nat.not_lt.mpr (List.mem_range'_1.mp hnew).1 (hbounded rule hrule)
  have hsplit : r.currentRules.Perm
      (reused ++ r.currentRules.filter (fun rule => rule ∉ next)) := by
    refine (List.perm_ext_iff_of_nodup hcurrent ?_).mpr (fun rule => ?_)
    · refine List.nodup_append.mpr
        ⟨hreused, hcurrent.sublist List.filter_sublist, fun rule hrule rule' hrule' heq => ?_⟩
      subst heq
      have hnot := of_decide_eq_true (List.mem_filter.mp hrule').2
      exact hnot ((hkept rule (hsubset rule hrule)).mpr hrule)
    rw [List.mem_append, List.mem_filter, decide_eq_true_eq]
    constructor
    · intro hrule
      by_cases hmem : rule ∈ next
      · exact .inl ((hkept rule hrule).mp hmem)
      · exact .inr ⟨hrule, hmem⟩
    · exact fun hrule => hrule.elim (hsubset rule) (fun hrule => hrule.1)
  refine List.perm_iff_count.mpr (fun rule => ?_)
  have hcount := List.perm_iff_count.mp hnext rule
  have hcount' := List.perm_iff_count.mp hsplit rule
  simp only [List.count_append] at hcount hcount' ⊢
  omega

theorem Accounted.prepare (h : Accounted s) (hidle : s.pending = none)
    (hwanted : (wanted.filterMap Wanted.previous).Nodup) :
    Accounted { s with
      router := (s.router.prepareAddedRules wanted).1, pending :=
      (s.router.prepareAddedRules wanted).2 } := by
  have hnodup := h.places.nodup_iff.mpr List.nodup_range
  have hcurrent : s.router.currentRules.Nodup := by
    rw [RuleAccounts.places, List.append_assoc, List.append_assoc, List.nodup_append] at hnodup
    exact (List.nodup_append.mp hnodup.2.1).1
  have hbounded (rule : Rule) (hrule : rule ∈ s.router.currentRules) :
      rule < s.router.constructed := by
    refine List.mem_range.mp (h.places.mem_iff.mp ?_)
    simp [RuleAccounts.places, hrule]
  obtain ⟨k, hbuilds, ⟨hnone, hclosed⟩ | ⟨hclosed, next, hsome, -, -⟩⟩ :=
    s.router.prepareAddedRules_cases wanted
  · rw [hnone]
    exact h.builds hbuilds hclosed (by simp [adding, hidle]) nofun
  have hpending (p : PreparedRules) (hp : (s.router.prepareAddedRules wanted).2 = some p) :=
    prepared_perm hcurrent hbounded hwanted hp
  rw [hsome] at hpending ⊢
  have hnil : (s.router.prepareAddedRules wanted).1.closed = s.router.closed ++ [] := by
    rw [hclosed, List.append_nil]
  exact h.builds hbuilds hnil (by simp [adding, hidle]) hpending

theorem Accounted.abort (h : Accounted s) (hp : s.pending = some p) :
    Accounted { s with router := s.router.abortRules p, pending := none } := by
  have hbuilds : Router.Builds s.router (s.router.abortRules p) 0 :=
    ⟨rfl, rfl, rfl, rfl, rfl, fun _ _ => rfl⟩
  exact h.builds hbuilds rfl (by simp [adding, hp]) nofun

theorem Accounted.commit (h : Accounted s) (hc : s.router.addedRules = some c)
    (hp : s.pending = some p) :
    Accounted { s with router := (s.router.replaced c p).settle c, pending := none } := by
  obtain ⟨hlt, hclean⟩ := h.counted.current c hc
  have hr := replaced hlt p
  refine ⟨h.counted.commit hc p, ?_, nofun⟩
  -- the retirements of the old snapshot are the only ones that change
  have hretiring : (retiring ((s.router.replaced c p).settle c)).Perm
      ((if (s.router.snapshots c).leases = 0 then [] else p.retired) ++ retiring s.router) := by
    have hperm := @flatMap_perm (fun i => (s.router.snapshots i).retired)
      (fun i => if i = c then (if (s.router.snapshots c).leases = 0 then [] else p.retired)
        else (s.router.snapshots i).retired) c s.router.made hlt (fun i hi => if_neg hi)
    simp only [hclean, List.nil_append, if_true] at hperm
    refine List.Perm.trans (List.Perm.of_eq ?_) hperm
    rw [retiring, hr.made, List.range_succ, List.flatMap_append, List.flatMap_singleton, hr.new,
      List.append_nil]
    refine List.flatMap_congr (fun i hi => ?_)
    by_cases heq : i = c
    · rw [heq, hr.old, if_pos rfl]
    · rw [if_neg heq, hr.other i (Nat.ne_of_lt (List.mem_range.mp hi)) heq]
  refine List.Perm.trans (List.perm_iff_count.mpr (fun rule => ?_)) (hr.constructed ▸ h.places)
  have hcount := List.perm_iff_count.mp hretiring rule
  have hmoved := List.perm_iff_count.mp (h.pending p hp) rule
  simp only [RuleAccounts.places, adding, hp, hr.closed, hr.current, List.count_append,
    Option.map_some, Option.getD_some, Option.map_none, Option.getD_none,
    List.count_nil] at hcount hmoved ⊢
  by_cases hzero : (s.router.snapshots c).leases = 0
  · simp only [if_pos hzero, List.count_append, List.count_nil] at hcount ⊢
    omega
  · simp only [if_neg hzero] at hcount ⊢
    omega

theorem step_accounted (h : Accounted s) {action : Action}
    (hwanted : ∀ wanted, action = .prepare wanted → (wanted.filterMap Wanted.previous).Nodup) :
    Accounted (step action s) := by
  cases action with
  | acquire =>
    simp only [step]
    exact h.stored.acquire rfl
  | release snapshot =>
    simp only [step]
    split
    next hmem => exact h.release hmem
    · exact h
  | prepare wanted =>
    simp only [step]
    split
    next hidle => exact h.prepare hidle (hwanted wanted rfl)
    · exact h
  | abort =>
    simp only [step]
    split
    next p hp => exact h.abort hp
    · exact h
  | commit =>
    simp only [step]
    split
    next p hp =>
      exact h.stored.commit rfl hp
    · exact h

theorem accounted_ofRules (list : List JsonValues.Json) :
    Accounted { router := .ofRules list } := by
  refine ⟨(inv_ofRules list).counted, List.Perm.of_eq ?_, nofun⟩
  simp [RuleAccounts.places, adding, retiring, Router.ofRules, Router.currentRules]

theorem Accounted.closed_nodup (h : Accounted s) : s.router.closed.Nodup := by
  have hnodup := h.places.nodup_iff.mpr List.nodup_range
  rw [RuleAccounts.places, List.append_assoc, List.append_assoc] at hnodup
  exact (List.nodup_append.mp hnodup).1

theorem Accounted.closed_of_unused (h : Accounted s) (hidle : s.pending = none)
    (hleases : s.leases = []) {rule : Rule} (hrule : rule < s.router.constructed)
    (hunused : rule ∉ s.router.currentRules) : rule ∈ s.router.closed := by
  have hmem : rule ∈ RuleAccounts.places s := h.places.mem_iff.mpr (List.mem_range.mpr hrule)
  have hretiring : rule ∉ retiring s.router := by
    intro hretiring
    obtain ⟨i, -, hi⟩ := List.mem_flatMap.mp hretiring
    rw [h.counted.idle i (by rw [h.counted.leases, hleases, List.count_nil])] at hi
    cases hi
  simpa [RuleAccounts.places, adding, hidle, hunused, hretiring] using hmem

/-- In every run, every rule object is in one place, once, if no preparation keeps an old rule
twice. -/
theorem rules_accounted (list : List JsonValues.Json) (actions : List Action)
    (hp : Permitted step (fun _ action => ∀ wanted, action = .prepare wanted →
      (wanted.filterMap Wanted.previous).Nodup) actions { router := .ofRules list }) :
      Accounted (run step actions { router := .ofRules list }) :=
  @run_invariant _ _ step _ Accounted (fun _ _ h hwanted => step_accounted h hwanted) _ _
    (accounted_ofRules list) hp

theorem leased_rule_accounted : Accounted (run step
    [.acquire, .prepare [⟨.null, some 0, .works⟩], .commit, .release 0]
    { router := .ofRules [.null, .null] }) :=
  rules_accounted _ _ ⟨nofun, by rintro _ ⟨⟩; decide, nofun, nofun, trivial⟩

end NodeManager.RuleAccounts
