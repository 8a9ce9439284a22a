import NodeManager.RuleSnapshots
import NodeManager.Runs

namespace NodeManager.RuleLeases

open Runs RuleSnapshots

structure State where
  router : Router
  leases : List Nat := []
  pending : Option PreparedRules := none

inductive Action
  | acquire
  | release (snapshot : Nat)
  | prepare (wanted : List Wanted)
  | abort
  | commit

/-- One call; only a lease that is outstanding can be released, and preparations are serialised. -/
def step : Action → State → State
  | .acquire, s =>
    { s with router := s.router.acquireRules.1, leases := s.router.acquireRules.2 :: s.leases }
  | .release snapshot, s =>
    if snapshot ∈ s.leases then
      { s with router := s.router.releaseRules snapshot, leases := s.leases.erase snapshot }
    else s
  | .prepare wanted, s =>
    match s.pending with
    | none =>
      { s with
        router := (s.router.prepareAddedRules wanted).1, pending :=
        (s.router.prepareAddedRules wanted).2 }
    | some _ => s
  | .abort, s =>
    match s.pending with
    | some p => { s with router := s.router.abortRules p, pending := none }
    | none => s
  | .commit, s =>
    match s.pending with
    | some p => { s with router := s.router.publishRules p, pending := none }
    | none => s

def Readable (s : State) : Prop :=
  ∀ snapshot ∈ s.leases, ∀ rule ∈ (s.router.snapshots snapshot).rules, rule ∉ s.router.closed

/-- A commit retires no rule of an older snapshot that is still leased. -/
def Allowed (s : State) : Action → Prop
  | .commit => ∀ p ∈ s.pending, ∀ snapshot ∈ s.leases, s.router.addedRules ≠ some snapshot →
    ∀ rule ∈ p.retired, rule ∉ (s.router.snapshots snapshot).rules
  | _ => True

instance (s : State) (action : Action) : Decidable (Allowed s action) := by
  rcases action <;> (unfold Allowed; infer_instance)

instance (s : State) : Decidable (Readable s) :=
  inferInstanceAs (Decidable (∀ snapshot ∈ s.leases, ∀ rule ∈ (s.router.snapshots snapshot).rules,
    rule ∉ s.router.closed))

structure Counted (s : State) : Prop where
  leases : ∀ i, (s.router.snapshots i).leases = s.leases.count i
  fresh : ∀ i, s.router.made ≤ i → s.router.snapshots i = {}
  current : ∀ i, s.router.addedRules = some i → i < s.router.made ∧
    (s.router.snapshots i).retired = []
  idle : ∀ i, (s.router.snapshots i).leases = 0 → (s.router.snapshots i).retired = []
  first : s.router.addedRules = none → s.router.made = 0

def Known (r : Router) (rule : Rule) : Prop :=
  rule ∈ r.rules ∨ rule ∈ r.closed ∨ ∃ i, rule ∈ (r.snapshots i).rules ∨
    rule ∈ (r.snapshots i).retired

theorem known_currentRules {r : Router} {rule : Rule} (h : rule ∈ r.currentRules) :
    Known r rule := by
  unfold Router.currentRules at h
  split at h
  next i _ => exact .inr (.inr ⟨i, .inl h⟩)
  · exact .inl h

structure Kept (s : State) : Prop where
  bounded : ∀ rule, Known s.router rule → rule < s.router.constructed
  closed : ∀ rule ∈ s.router.closed, rule ∉ s.router.currentRules ∧
    ∀ i ∈ s.leases, rule ∉ (s.router.snapshots i).rules
  retiring : ∀ i, ∀ rule ∈ (s.router.snapshots i).retired, rule ∉ s.router.currentRules ∧
    ∀ j ∈ s.leases, j ≠ i → rule ∉ (s.router.snapshots j).rules
  pending : ∀ p, s.pending = some p →
    (∀ rule ∈ p.next, rule ∈ s.router.currentRules ∨ rule ∈ p.added) ∧
      (∀ rule ∈ p.added, ¬Known s.router rule ∧ rule < s.router.constructed) ∧
        ∀ rule ∈ p.retired, rule ∈ s.router.currentRules ∧ rule ∉ p.next

variable {s : State} {c : Nat}

theorem Counted.lt_made (h : Counted s) {i : Nat} (hi : i ∈ s.leases) : i < s.router.made := by
  by_contra hge
  have hcount := h.leases i
  rw [h.fresh i (Nat.not_lt.mp hge)] at hcount
  exact Nat.ne_of_lt (List.count_pos_iff.mpr hi) hcount

theorem Counted.stored (h : Counted s) : Counted { s with router := s.router.stored } := by
  cases hcurrent : s.router.addedRules with
  | some c => rwa [Router.stored_eq hcurrent]
  | none =>
    have hmade := h.first hcurrent
    have hold (i : Nat) : s.router.snapshots i = {} := h.fresh i (hmade ▸ Nat.zero_le i)
    have hsnapshots (i : Nat) : s.router.stored.snapshots i = if i = 0 then
        { rules := s.router.rules } else {} := by
      rw [Router.stored_snapshots hcurrent, hmade, hold]
    have hmade' : s.router.stored.made = 1 := by
      rw [Router.stored_none hcurrent, Router.newSnapshot, hmade]
    refine ⟨fun i => ?_, fun i hi => ?_, fun i hi => ?_,
      fun i _ => ?_, by simp [Router.stored_none hcurrent]⟩
    · rw [← h.leases, hold, hsnapshots]
      split <;> rfl
    · have hi : 1 ≤ i := hmade' ▸ hi
      rw [hsnapshots, if_neg (by omega)]
    · obtain rfl : 0 = i := Option.some.inj (by rw [← hi, Router.stored_none hcurrent, hmade])
      simp [hsnapshots, hmade']
    · rw [hsnapshots]
      split <;> rfl

structure Inv (s : State) : Prop where
  counted : Counted s
  kept : Kept s

/-- The rules of the snapshots stay, leases come to the snapshot in use only, and what is closed was
to be retired by a snapshot without leases. -/
theorem Kept.mono {s' : State} (h : Kept s) (hfirst : s'.router.rules = s.router.rules)
    (hcurrent : s'.router.currentRules = s.router.currentRules)
    (hrules : ∀ i, ∀ rule ∈ (s'.router.snapshots i).rules, rule ∈ s.router.rules ∨
      rule ∈ (s.router.snapshots i).rules)
    (hretired : ∀ i, ∀ rule ∈ (s'.router.snapshots i).retired,
      rule ∈ (s.router.snapshots i).retired)
    (hclosed : ∀ rule ∈ s'.router.closed, rule ∈ s.router.closed ∨
      ∃ i, rule ∈ (s.router.snapshots i).retired ∧ i ∉ s'.leases)
    (hconstructed : s'.router.constructed = s.router.constructed)
    (hpending : s'.pending = s.pending)
    (hleases : ∀ i ∈ s'.leases, i ∈ s.leases ∧
    (s'.router.snapshots i).rules = (s.router.snapshots i).rules ∨
      (s'.router.snapshots i).rules = s.router.currentRules) : Kept s' := by
  have hknown (rule : Rule) (hrule : Known s'.router rule) : Known s.router rule := by
    obtain hrule | hrule | ⟨i, hrule | hrule⟩ := hrule
    · exact .inl (hfirst ▸ hrule)
    · obtain hrule | ⟨i, hrule, -⟩ := hclosed rule hrule
      · exact .inr (.inl hrule)
      · exact .inr (.inr ⟨i, .inr hrule⟩)
    · exact (hrules i rule hrule).imp_right (fun hmem => .inr ⟨i, .inl hmem⟩)
    · exact .inr (.inr ⟨i, .inr (hretired i rule hrule)⟩)
  have hleased {rule : Rule} {j : Nat} (hj : j ∈ s'.leases) (hnot : rule ∉ s.router.currentRules)
      (hold : j ∈ s.leases → rule ∉ (s.router.snapshots j).rules) :
      rule ∉ (s'.router.snapshots j).rules := by
    obtain ⟨hmem, heq⟩ | heq := hleases j hj
    · exact heq ▸ hold hmem
    · exact heq ▸ hnot
  refine ⟨fun rule hrule => ?_, fun rule hrule => ?_, fun i rule hrule => ?_, fun p hp => ?_⟩
  · rw [hconstructed]
    exact h.bounded rule (hknown rule hrule)
  · rw [hcurrent]
    obtain hrule | ⟨i, hrule, hi⟩ := hclosed rule hrule
    · obtain ⟨hnot, hold⟩ := h.closed rule hrule
      exact ⟨hnot, fun j hj => hleased hj hnot (hold j)⟩
    · obtain ⟨hnot, hold⟩ := h.retiring i rule hrule
      exact ⟨hnot, fun j hj => hleased hj hnot (fun hmem => hold j hmem (fun heq => hi (heq ▸ hj)))⟩
  · rw [hcurrent]
    obtain ⟨hnot, hold⟩ := h.retiring i rule (hretired i rule hrule)
    exact ⟨hnot, fun j hj hne => hleased hj hnot (fun hmem => hold j hmem hne)⟩
  · rw [hpending] at hp
    obtain ⟨hnext, hadded, hold⟩ := h.pending p hp
    rw [hcurrent, hconstructed]
    exact ⟨hnext, fun rule hrule =>
      ⟨fun hk => (hadded rule hrule).1 (hknown rule hk), (hadded rule hrule).2⟩, hold⟩

theorem Inv.stored (h : Inv s) : Inv { s with router := s.router.stored } := by
  refine ⟨h.counted.stored, ?_⟩
  cases hcurrent : s.router.addedRules with
  | some c =>
    rw [Router.stored_eq hcurrent]
    exact h.kept
  | none =>
    obtain ⟨hfirst, hclosed, hconstructed⟩ := s.router.stored_same
    have hsnapshots := Router.stored_snapshots hcurrent
    refine h.kept.mono hfirst s.router.stored_currentRules (fun i rule hrule => ?_)
      (fun i rule hrule => ?_) (fun rule hrule => .inl (hclosed ▸ hrule)) hconstructed rfl
      (fun i hi => ?_)
    · rw [hsnapshots] at hrule
      split at hrule
      · exact .inl hrule
      · exact .inr hrule
    · rw [hsnapshots] at hrule
      split at hrule
      · cases hrule
      · exact hrule
    · exact absurd (h.counted.lt_made hi)
        (by rw [h.counted.first hcurrent]; exact Nat.not_lt_zero i)

theorem Counted.acquire (h : Counted s) (hc : s.router.addedRules = some c) : Counted { s with
      router := s.router.setSnapshot c { s.router.snapshots c with
        leases := (s.router.snapshots c).leases + 1 }
      leases := c :: s.leases } := by
  obtain ⟨hlt, hretired⟩ := h.current c hc
  refine ⟨fun i => ?_, fun i hi => ?_, fun i hi => ?_, fun i hi => ?_, fun hnone => ?_⟩
  · have hi := h.leases i
    by_cases heq : i = c
    · subst heq
      simpa [Router.setSnapshot] using hi
    · simpa [Router.setSnapshot, heq, List.count_cons, Ne.symm heq] using hi
  · have hne : i ≠ c := fun heq => Nat.not_le.mpr hlt (heq ▸ hi)
    simpa [Router.setSnapshot, hne] using h.fresh i hi
  · cases hc.symm.trans hi
    simpa [Router.setSnapshot] using ⟨hlt, hretired⟩
  · by_cases heq : i = c
    · simp [Router.setSnapshot, heq] at hi
    · simpa [Router.setSnapshot, heq] using h.idle i (by simpa [Router.setSnapshot, heq] using hi)
  · cases (show s.router.addedRules = none from hnone).symm.trans hc

theorem Inv.acquire (h : Inv s) (hc : s.router.addedRules = some c) : Inv { s with
      router := s.router.setSnapshot c { s.router.snapshots c with
        leases := (s.router.snapshots c).leases + 1 }
      leases := c :: s.leases } := by
  refine ⟨h.counted.acquire hc, ?_⟩
  · have hrules (i : Nat) : ((s.router.setSnapshot c
        { s.router.snapshots c with
          leases := (s.router.snapshots c).leases + 1 }).snapshots i).rules =
          (s.router.snapshots i).rules := by
      by_cases heq : i = c <;> simp [Router.setSnapshot, heq]
    refine h.kept.mono rfl (Router.currentRules_congr rfl rfl hrules)
      (fun i _ hrule => .inr (hrules i ▸ hrule)) (fun i rule => ?_) (fun rule hrule => .inl hrule)
      rfl rfl (fun i hi => ?_)
    · by_cases heq : i = c <;> simp [Router.setSnapshot, heq]
    obtain rfl | hi := List.mem_cons.mp hi
    · exact .inr ((hrules i).trans (by rw [Router.currentRules, hc]))
    · exact .inl ⟨hi, hrules i⟩

structure Released (s : State) (c : Nat) : Prop where
  rules : ∀ i, ((s.router.releaseRules c).snapshots i).rules = (s.router.snapshots i).rules
  leases : ∀ i, ((s.router.releaseRules c).snapshots i).leases = (s.leases.erase c).count i
  other : ∀ i, i ≠ c → (s.router.releaseRules c).snapshots i = s.router.snapshots i
  self : ((s.router.releaseRules c).snapshots c).retired =
    if (s.leases.erase c).count c = 0 then [] else (s.router.snapshots c).retired
  closed : (s.router.releaseRules c).closed =
    if (s.leases.erase c).count c = 0 then s.router.closed ++ (s.router.snapshots c).retired
    else s.router.closed
  first : (s.router.releaseRules c).rules = s.router.rules
  made : (s.router.releaseRules c).made = s.router.made
  addedRules : (s.router.releaseRules c).addedRules = s.router.addedRules
  constructed : (s.router.releaseRules c).constructed = s.router.constructed

theorem Counted.released (h : Counted s) (c : Nat) : Released s c := by
  have hsame := Router.settle_same (s.router.setSnapshot c
    { s.router.snapshots c with leases := (s.router.snapshots c).leases - 1 }) c
  have hcount : (s.router.snapshots c).leases - 1 = (s.leases.erase c).count c := by
    rw [h.leases, List.count_erase_self]
  have hleases (i : Nat) : ((s.router.releaseRules c).snapshots i).leases =
      (s.leases.erase c).count i := by
    rw [Router.releaseRules, Router.settle_leases]
    by_cases heq : i = c
    · simp [Router.setSnapshot, heq, h.leases, List.count_erase_self]
    · simp [Router.setSnapshot, heq, h.leases, List.count_erase_of_ne heq]
  refine ⟨fun i => ?_, hleases, fun i heq => ?_, ?_, ?_, hsame.1, hsame.2.1, hsame.2.2.1,
    hsame.2.2.2.1⟩
  · rw [Router.releaseRules, Router.settle_rules]
    by_cases heq : i = c <;> simp [Router.setSnapshot, heq]
  · rw [Router.releaseRules, Router.settle_snapshots_ne _ heq]
    exact Function.update_of_ne heq _ _
  · rw [← hleases c, Router.releaseRules, Router.settle_leases, Router.settle_retired_self]
    simp [Router.setSnapshot]
  · rw [Router.releaseRules, Router.settle_closed]
    simp only [Router.setSnapshot, Function.update_self, hcount]

theorem Released.retired_subset (h : Released s c) {i : Nat} {rule : Rule}
    (hrule : rule ∈ ((s.router.releaseRules c).snapshots i).retired) :
    rule ∈ (s.router.snapshots i).retired := by
  by_cases heq : i = c
  · subst heq
    rw [h.self] at hrule
    split at hrule
    · cases hrule
    · exact hrule
  · rwa [h.other i heq] at hrule

theorem Counted.release (h : Counted s) (hc : c ∈ s.leases) :
    Counted { s with router := s.router.releaseRules c, leases := s.leases.erase c } := by
  have hr := h.released c
  refine ⟨hr.leases, fun i hi => ?_, fun i hi => ?_, fun i hi => ?_, fun hnone => ?_⟩
  · have hi' : s.router.made ≤ i := hr.made ▸ hi
    have hne : i ≠ c := fun heq => Nat.not_le.mpr (h.lt_made hc) (heq ▸ hi')
    exact (hr.other i hne).trans (h.fresh i hi')
  · obtain ⟨hlt, hnil⟩ := h.current i (hr.addedRules ▸ hi)
    refine ⟨hr.made.symm ▸ hlt, List.eq_nil_iff_forall_not_mem.mpr (fun rule hrule => ?_)⟩
    have hmem := hr.retired_subset hrule
    rw [hnil] at hmem
    cases hmem
  · by_cases heq : i = c
    · subst heq
      rw [hr.self, if_pos ((hr.leases i).symm.trans hi)]
    · rw [hr.other i heq] at hi ⊢
      exact h.idle i hi
  · exact hr.made.trans (h.first (hr.addedRules ▸ hnone))

theorem Inv.release (h : Inv s) (hc : c ∈ s.leases) :
    Inv { s with router := s.router.releaseRules c, leases := s.leases.erase c } := by
  have hr := h.counted.released c
  refine ⟨h.counted.release hc, h.kept.mono hr.first
    (Router.currentRules_congr hr.first hr.addedRules hr.rules)
    (fun i _ hrule => .inr (hr.rules i ▸ hrule)) (fun i rule => hr.retired_subset)
    (fun rule hrule => ?_) hr.constructed rfl
    (fun i hi => .inl ⟨List.mem_of_mem_erase hi, hr.rules i⟩)⟩
  rw [hr.closed] at hrule
  split at hrule
  next hzero =>
    exact (List.mem_append.mp hrule).imp_right (fun hmem => ⟨c, hmem, List.count_eq_zero.mp hzero⟩)
  · exact .inl hrule

structure Replaced (r r' : Router) (c : Nat) (p : PreparedRules) : Prop where
  current : r'.currentRules = p.next
  addedRules : r'.addedRules = some r.made
  made : r'.made = r.made + 1
  first : r'.rules = r.rules
  constructed : r'.constructed = r.constructed
  new : r'.snapshots r.made = { rules := p.next }
  old : r'.snapshots c =
    { r.snapshots c with retired := if (r.snapshots c).leases = 0 then [] else p.retired }
  other : ∀ i, i ≠ r.made → i ≠ c → r'.snapshots i = r.snapshots i
  closed : r'.closed = if (r.snapshots c).leases = 0 then r.closed ++ p.retired else r.closed

theorem replaced {r : Router} (hc : c < r.made) (p : PreparedRules) :
    Replaced r ((r.replaced c p).settle c) c p := by
  have hsame := Router.settle_same (r.replaced c p) c
  have hne : c ≠ r.made := Nat.ne_of_lt hc
  have hself : (r.replaced c p).snapshots c = { r.snapshots c with retired := p.retired } := by
    rw [Router.replaced_snapshots, if_neg hne, if_pos rfl]
  have hnew : ((r.replaced c p).settle c).snapshots r.made = { rules := p.next } := by
    rw [Router.settle_snapshots_ne _ hne.symm, Router.replaced_snapshots, if_pos rfl]
  refine ⟨?_, hsame.2.2.1, hsame.2.1, hsame.1, hsame.2.2.2.1, hnew, ?_, fun i hmade hi => ?_, ?_⟩
  · rw [Router.currentRules, show ((r.replaced c p).settle c).addedRules = some r.made
      from hsame.2.2.1]
    dsimp only
    rw [hnew]
  · have hrules := Router.settle_rules (r.replaced c p) c c
    have hleases := Router.settle_leases (r.replaced c p) c c
    have hretired := Router.settle_retired_self (r.replaced c p) c
    cases hsnapshot : ((r.replaced c p).settle c).snapshots c
    simp_all
  · rw [Router.settle_snapshots_ne _ hi, Router.replaced_snapshots, if_neg hmade, if_neg hi]
  · rw [Router.settle_closed, hself]
    rfl

theorem Counted.commit (h : Counted s) (hc : s.router.addedRules = some c) (p : PreparedRules) :
    Counted { s with router := (s.router.replaced c p).settle c, pending := none } := by
  have hlt := (h.current c hc).1
  have hr := replaced hlt p
  refine ⟨fun i => ?_, fun i hi => ?_, fun i hi => ?_, fun i hi => ?_, fun hnone => ?_⟩
  · have hcount := h.leases i
    by_cases hmade : i = s.router.made
    · rw [hmade, h.fresh _ (Nat.le_refl _)] at hcount
      rw [hmade, hr.new]
      exact hcount
    by_cases heq : i = c
    · rw [heq] at hcount ⊢
      rw [hr.old]
      exact hcount
    · rwa [hr.other i hmade heq]
  · rw [hr.made] at hi
    rw [hr.other i (by omega) (by omega)]
    exact h.fresh i (by omega)
  · rw [hr.addedRules] at hi
    cases hi
    rw [hr.new, hr.made]
    exact ⟨Nat.lt_succ_self _, rfl⟩
  · by_cases hmade : i = s.router.made
    · rw [hmade, hr.new]
    · by_cases heq : i = c
      · rw [heq, hr.old] at hi ⊢
        exact if_pos hi
      · rw [hr.other i hmade heq] at hi ⊢
        exact h.idle i hi
  · cases hnone.symm.trans hr.addedRules

theorem Inv.commit (h : Inv s) (hc : s.router.addedRules = some c) {p : PreparedRules}
    (hp : s.pending = some p) (hallowed : ∀ i ∈ s.leases, i ≠ c →
      ∀ rule ∈ p.retired, rule ∉ (s.router.snapshots i).rules) :
    Inv { s with router := (s.router.replaced c p).settle c, pending := none } := by
  obtain ⟨hlt, hclean⟩ := h.counted.current c hc
  obtain ⟨hnext, hadded, hretired⟩ := h.kept.pending p hp
  have hr := replaced hlt p
  have hrules (i : Nat) (hi : i ≠ s.router.made) :
      (((s.router.replaced c p).settle c).snapshots i).rules =
      (s.router.snapshots i).rules := by
    by_cases heq : i = c
    · rw [heq, hr.old]
    · rw [hr.other i hi heq]
  -- the new list has no rule that was known and not in use
  have hfresh {rule : Rule} (hknown : Known s.router rule)
    (hnot : rule ∉ s.router.currentRules) : rule ∉ p.next :=
    fun hmem => (hnext rule hmem).elim hnot (fun hnew => (hadded rule hnew).1 hknown)
  have hmem {i : Nat} (hi : i ∈ s.leases) : i ≠ s.router.made := Nat.ne_of_lt (h.counted.lt_made hi)
  refine ⟨h.counted.commit hc p, ?_⟩
  have hretiring (i : Nat) (rule : Rule)
      (hrule : rule ∈ (((s.router.replaced c p).settle c).snapshots i).retired) :
      (i = c ∧ rule ∈ p.retired) ∨ (i ≠ c ∧ i ≠ s.router.made ∧
        rule ∈ (s.router.snapshots i).retired) := by
    by_cases hmade : i = s.router.made
    · rw [hmade, hr.new] at hrule
      cases hrule
    by_cases heq : i = c
    · rw [heq, hr.old] at hrule
      split at hrule
      · cases hrule
      · exact .inl ⟨heq, hrule⟩
    · rw [hr.other i hmade heq] at hrule
      exact .inr ⟨heq, hmade, hrule⟩
  have hclosed (rule : Rule) (hrule : rule ∈ ((s.router.replaced c p).settle c).closed) :
      rule ∈ s.router.closed ∨ (rule ∈ p.retired ∧ c ∉ s.leases) := by
    rw [hr.closed] at hrule
    split at hrule
    next hzero =>
      rw [h.counted.leases] at hzero
      exact (List.mem_append.mp hrule).imp_right (fun hmem => ⟨hmem, List.count_eq_zero.mp hzero⟩)
    · exact .inl hrule
  refine ⟨fun rule hrule => ?_, fun rule hrule => ?_, fun i rule hrule => ?_, nofun⟩
  · rw [hr.constructed]
    have hold (hk : Known s.router rule) : rule < s.router.constructed := h.kept.bounded rule hk
    obtain hrule | hrule | ⟨i, hrule | hrule⟩ := hrule
    · exact hold (.inl (hr.first ▸ hrule))
    · obtain hrule | ⟨hrule, -⟩ := hclosed rule hrule
      · exact hold (.inr (.inl hrule))
      · exact hold (known_currentRules (hretired rule hrule).1)
    · by_cases hmade : i = s.router.made
      · rw [hmade, hr.new] at hrule
        exact (hnext rule hrule).elim (fun hk => hold (known_currentRules hk))
          (fun hk => (hadded rule hk).2)
      · exact hold (.inr (.inr ⟨i, .inl (hrules i hmade ▸ hrule)⟩))
    · obtain ⟨-, hrule⟩ | ⟨-, -, hrule⟩ := hretiring i rule hrule
      · exact hold (known_currentRules (hretired rule hrule).1)
      · exact hold (.inr (.inr ⟨i, .inr hrule⟩))
  · rw [hr.current]
    obtain hrule | ⟨hrule, hfree⟩ := hclosed rule hrule
    · obtain ⟨hnot, hleased⟩ := h.kept.closed rule hrule
      exact ⟨hfresh (.inr (.inl hrule)) hnot,
        fun i hi => by rw [hrules i (hmem hi)]; exact hleased i hi⟩
    refine ⟨(hretired rule hrule).2, fun i hi => ?_⟩
    rw [hrules i (hmem hi)]
    exact hallowed i hi (fun heq => hfree (heq ▸ hi)) rule hrule
  · rw [hr.current]
    obtain ⟨heq, hold⟩ | ⟨hne, hmade, hrule⟩ := hretiring i rule hrule
    · refine ⟨(hretired rule hold).2, fun j hj hne => ?_⟩
      rw [hrules j (hmem hj)]
      exact hallowed j hj (heq ▸ hne) rule hold
    · obtain ⟨hnot, hleased⟩ := h.kept.retiring i rule hrule
      refine ⟨hfresh (.inr (.inr ⟨i, .inr hrule⟩)) hnot, fun j hj hji => ?_⟩
      rw [hrules j (hmem hj)]
      exact hleased j hj hji

theorem Counted.builds (h : Counted s) {r' : Router} {k : Nat}
    (hbuilds : Router.Builds s.router r' k) (pending : Option PreparedRules) :
    Counted { s with router := r', pending := pending } := by
  refine ⟨?_, ?_, ?_, ?_, ?_⟩
  · rw [hbuilds.snapshots]
    exact h.leases
  · rw [hbuilds.snapshots, hbuilds.made]
    exact h.fresh
  · rw [hbuilds.snapshots, hbuilds.made, hbuilds.addedRules]
    exact h.current
  · rw [hbuilds.snapshots]
    exact h.idle
  · rw [hbuilds.made, hbuilds.addedRules]
    exact h.first

theorem Inv.builds (h : Inv s) {r' : Router} {k : Nat} (hbuilds : Router.Builds s.router r' k)
    {closed : List Rule} (hclosed : r'.closed = s.router.closed ++ closed)
    (hnew : ∀ rule ∈ closed, ¬Known s.router rule ∧ rule < r'.constructed)
    {pending : Option PreparedRules} (hpending : ∀ p, pending = some p →
      (∀ rule ∈ p.next, rule ∈ s.router.currentRules ∨ rule ∈ p.added) ∧
        (∀ rule ∈ p.added, ¬Known s.router rule ∧ rule < r'.constructed ∧ rule ∉ closed) ∧
          ∀ rule ∈ p.retired, rule ∈ s.router.currentRules ∧ rule ∉ p.next) :
    Inv { s with router := r', pending := pending } := by
  have hknown (rule : Rule) (hrule : Known r' rule) : Known s.router rule ∨ rule ∈ closed := by
    obtain hrule | hrule | ⟨i, hrule⟩ := hrule
    · exact .inl (.inl (hbuilds.rules ▸ hrule))
    · rw [hclosed] at hrule
      exact (List.mem_append.mp hrule).imp_left (fun hk => .inr (.inl hk))
    · exact .inl (.inr (.inr ⟨i, hbuilds.snapshots ▸ hrule⟩))
  refine ⟨h.counted.builds hbuilds pending,
    ⟨fun rule hrule => ?_, fun rule hrule => ?_, ?_, fun p hp => ?_⟩⟩
  · obtain hk | hk := hknown rule hrule
    · exact Nat.lt_of_lt_of_le (h.kept.bounded rule hk) (hbuilds.constructed ▸ Nat.le_add_right _ k)
    · exact (hnew rule hk).2
  · rw [hbuilds.currentRules, hbuilds.snapshots]
    rw [hclosed] at hrule
    obtain hrule | hrule := List.mem_append.mp hrule
    · exact h.kept.closed rule hrule
    · exact ⟨fun hmem => (hnew rule hrule).1 (known_currentRules hmem),
        fun i _ hmem => (hnew rule hrule).1 (.inr (.inr ⟨i, .inl hmem⟩))⟩
  · rw [hbuilds.currentRules, hbuilds.snapshots]
    exact h.kept.retiring
  · obtain ⟨hnext, hadded, hretired⟩ := hpending p hp
    rw [hbuilds.currentRules]
    exact ⟨hnext, fun rule hrule =>
      ⟨fun hk => (hknown rule hk).elim (hadded rule hrule).1 (hadded rule hrule).2.2,
        (hadded rule hrule).2.1⟩, hretired⟩

theorem Inv.prepare (h : Inv s) (wanted : List Wanted) :
    Inv { s with
      router := (s.router.prepareAddedRules wanted).1, pending :=
      (s.router.prepareAddedRules wanted).2 } := by
  obtain ⟨k, hbuilds, hcase⟩ := s.router.prepareAddedRules_cases wanted
  have hrange (rule : Rule) (hrule : rule ∈ List.range' s.router.constructed k) :
      ¬Known s.router rule ∧
      rule < (s.router.prepareAddedRules wanted).1.constructed := by
    rw [hbuilds.constructed]
    obtain ⟨hge, hlt⟩ := List.mem_range'_1.mp hrule
    exact ⟨fun hk => Nat.not_lt.mpr hge (h.kept.bounded rule hk), hlt⟩
  obtain ⟨hnone, hclosed⟩ | ⟨hclosed, next, hsome, honly, -⟩ := hcase
  · rw [hnone]
    exact h.builds hbuilds hclosed hrange nofun
  rw [hsome]
  have hnil : (s.router.prepareAddedRules wanted).1.closed = s.router.closed ++ [] := by
    rw [hclosed, List.append_nil]
  refine h.builds hbuilds hnil nofun (fun p hp => ?_)
  cases hp
  refine ⟨honly, fun rule hrule => ⟨(hrange rule hrule).1, (hrange rule hrule).2, nofun⟩,
    fun rule hrule => ?_⟩
  simpa using hrule

theorem step_inv (h : Inv s) (action : Action) (hallowed : Allowed s action) :
    Inv (step action s) := by
  cases action with
  | acquire =>
    exact h.stored.acquire rfl
  | release snapshot =>
    simp only [step]
    split
    next hmem => exact h.release hmem
    · exact h
  | prepare wanted =>
    simp only [step]
    split
    · exact h.prepare wanted
    · exact h
  | abort =>
    simp only [step]
    split
    next p hp =>
      have hbuilds : Router.Builds s.router (s.router.abortRules p) 0 :=
        ⟨rfl, rfl, rfl, rfl, rfl, fun _ _ => rfl⟩
      exact h.builds hbuilds rfl (h.kept.pending p hp).2.1 nofun
    · exact h
  | commit =>
    simp only [step]
    split
    next p hp =>
      refine h.stored.commit rfl hp (fun i hi hne rule hrule => ?_)
      cases hcurrent : s.router.addedRules with
      | none =>
        exact absurd (h.counted.lt_made hi)
          (by rw [h.counted.first hcurrent]; exact Nat.not_lt_zero i)
      | some c =>
        rw [Router.stored_eq hcurrent]
        rw [Router.loaded_eq hcurrent] at hne
        refine hallowed p hp i hi (fun heq => hne ?_) rule hrule
        exact (Option.some.inj (hcurrent.symm.trans heq)).symm
    · exact h

theorem inv_ofRules (list : List JsonValues.Json) : Inv { router := .ofRules list } := by
  refine ⟨⟨fun _ => rfl, fun _ _ => rfl, nofun, fun _ _ => rfl, fun _ => rfl⟩,
    ⟨fun rule hrule => ?_, nofun, fun _ _ hrule => (by cases hrule), nofun⟩⟩
  obtain hrule | hrule | ⟨i, hrule | hrule⟩ := hrule
  · exact List.mem_range.mp hrule
  · cases hrule
  · cases hrule
  · cases hrule

/-- As long as commits spare the rules of older leased snapshots, no lease has a closed rule. -/
theorem leased_rules_open (list : List JsonValues.Json) (actions : List Action)
    (hallowed : Permitted step Allowed actions { router := .ofRules list }) :
    Readable (run step actions { router := .ofRules list }) := by
  have hinv := @run_invariant State Action step Allowed Inv
    (fun _ action h hstep => step_inv h action hstep) actions _ (inv_ofRules list) hallowed
  intro snapshot hsnapshot rule hrule hclosed
  exact (hinv.kept.closed rule hclosed).2 snapshot hsnapshot hrule

def releasedFirst : List Action :=
  [.acquire, .prepare [{ option := .null, previous := some 0 }, { option := .null }],
    .commit, .release 0, .prepare [{ option := .null, previous := some 1 }], .commit]

theorem releasedFirst_rules_open :
    Permitted step Allowed releasedFirst { router := .ofRules [.null] } ∧
    (run step releasedFirst { router := .ofRules [.null] }).router.closed = [0] ∧
      Readable (run step releasedFirst { router := .ofRules [.null] }) :=
  ⟨by decide, by decide, leased_rules_open [.null] releasedFirst (by decide)⟩

/-- Without the release the rule is closed under its reader: the second snapshot carries the
retirement, and nobody has leased that. -/
theorem rule_closed_under_lease : ¬Readable (run step
    [.acquire, .prepare [{ option := .null, previous := some 0 }, { option := .null }], .commit,
      .prepare [{ option := .null, previous := some 1 }], .commit]
    { router := .ofRules [.null] }) := by
  decide

end NodeManager.RuleLeases
