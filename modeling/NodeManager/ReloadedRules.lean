import NodeManager.ReloadCases

namespace NodeManager.ReloadedRules

open JsonValues OutboundManager ReloadCases ReloadPlans RuleLeases RuleSnapshots Runs
  RuntimeBox UserReload

structure Frame (r r' : Router) : Prop where
  current : r'.currentRules = r.currentRules
  constructed : r.constructed ≤ r'.constructed
  options : ∀ rule, rule < r.constructed → r'.options rule = r.options rule

theorem Frame.refl (r : Router) : Frame r r := ⟨rfl, Nat.le_refl _, fun _ _ => rfl⟩

theorem Frame.trans {r r' r'' : Router} (h : Frame r r') (h' : Frame r' r'') : Frame r r'' where
  current := h'.current.trans h.current
  constructed := Nat.le_trans h.constructed h'.constructed
  options rule hrule := (h'.options rule (Nat.lt_of_lt_of_le hrule h.constructed)).trans
    (h.options rule hrule)

theorem Frame.of_builds {r r' : Router} {k : Nat} (h : Router.Builds r r' k) : Frame r r' where
  current := h.currentRules
  constructed := h.constructed ▸ Nat.le_add_right _ _
  options := h.options

theorem Frame.stored (r : Router) : Frame r r.stored := by
  refine ⟨r.stored_currentRules, ?_, fun rule _ => ?_⟩
  all_goals cases h : r.addedRules with
    | some c => rw [Router.stored_eq h]
    | none => simp [Router.stored_none h, Router.newSnapshot, Router.setSnapshot]

theorem Frame.setLeases (r : Router) (index leases : Nat) :
    Frame r (r.setSnapshot index { r.snapshots index with leases := leases }) := by
  refine ⟨Router.currentRules_congr rfl rfl (fun i => ?_), Nat.le_refl _, fun _ _ => rfl⟩
  by_cases h : i = index <;> simp [Router.setSnapshot, h]

theorem Frame.settle (r : Router) (index : Nat) : Frame r (r.settle index) := by
  obtain ⟨hfirst, -, hadded, hconstructed, hoptions⟩ := r.settle_same index
  exact ⟨Router.currentRules_congr hfirst hadded (r.settle_rules index), hconstructed.ge,
    fun _ _ => by rw [hoptions]⟩

theorem step_frame {action : RuleLeases.Action} (h : action ≠ .commit) (s : State) :
    Frame s.router (RuleLeases.step action s).router := by
  cases action with
  | acquire => exact (Frame.stored s.router).trans (.setLeases _ _ _)
  | release snapshot =>
    simp only [RuleLeases.step]
    split
    · exact (Frame.setLeases s.router snapshot _).trans (.settle _ snapshot)
    · exact .refl _
  | prepare wanted =>
    simp only [RuleLeases.step]
    split
    · obtain ⟨k, hbuilds, -⟩ := s.router.prepareAddedRules_cases wanted
      exact .of_builds hbuilds
    · exact .refl _
  | abort =>
    simp only [RuleLeases.step]
    split
    · exact ⟨rfl, Nat.le_refl _, fun _ _ => rfl⟩
    · exact .refl _
  | commit => exact absurd rfl h

theorem publishRules_current (r : Router) (p : PreparedRules) :
    (r.publishRules p).currentRules = p.next := by
  rw [Router.publishRules_eq, (Frame.settle _ _).current]
  simp [Router.currentRules, Router.replaced, Router.newSnapshot, Router.setSnapshot]

theorem publishRules_same (r : Router) (p : PreparedRules) :
    (r.publishRules p).constructed = r.constructed ∧ (r.publishRules p).options = r.options := by
  obtain ⟨-, -, -, hconstructed, hoptions⟩ :=
    (r.stored.replaced r.loaded.2 p).settle_same r.loaded.2
  rw [Router.publishRules_eq, hconstructed, hoptions]
  cases h : r.addedRules with
  | some c =>
    rw [Router.stored_eq h]
    exact ⟨rfl, rfl⟩
  | none =>
    rw [Router.stored_none h]
    exact ⟨rfl, rfl⟩

theorem leaseAction_ne_commit (acquisition : Option Nat) : leaseAction acquisition ≠ .commit := by
  cases acquisition <;> nofun

theorem step_lease_pending (acquisition : Option Nat) (s : State) :
    (RuleLeases.step (leaseAction acquisition) s).pending = s.pending := by
  cases acquisition with
  | none => rfl
  | some snapshot =>
    simp only [leaseAction, RuleLeases.step]
    split <;> rfl

theorem run_leases (acquisitions : List (Option Nat)) (s : State) :
    Frame s.router (run RuleLeases.step (acquisitions.map leaseAction) s).router ∧
      (run RuleLeases.step (acquisitions.map leaseAction) s).pending = s.pending := by
  induction acquisitions generalizing s with
  | nil => exact ⟨.refl _, rfl⟩
  | cons acquisition acquisitions ih =>
    obtain ⟨hframe, hpending⟩ := ih (RuleLeases.step (leaseAction acquisition) s)
    exact ⟨(step_frame (leaseAction_ne_commit acquisition) s).trans hframe,
      hpending.trans (step_lease_pending acquisition s)⟩

theorem step_lease_constructed (acquisition : Option Nat) (s : State) :
    (RuleLeases.step (leaseAction acquisition) s).router.constructed = s.router.constructed := by
  cases acquisition with
  | none =>
    change s.router.stored.constructed = _
    cases h : s.router.addedRules with
    | some c => rw [Router.stored_eq h]
    | none => rw [Router.stored_none h]; rfl
  | some snapshot =>
    simp only [leaseAction, RuleLeases.step]
    split
    · exact (Router.settle_same _ _).2.2.2.1
    · rfl

theorem run_leases_constructed (acquisitions : List (Option Nat)) (s : State) :
    (run RuleLeases.step (acquisitions.map leaseAction) s).router.constructed =
    s.router.constructed := by
  induction acquisitions generalizing s with
  | nil => rfl
  | cons acquisition acquisitions ih => exact (ih _).trans (step_lease_constructed acquisition s)

structure Follows (s : State) (list : List Json) : Prop where
  idle : s.pending = none
  options : s.router.currentRules.map s.router.options = list
  bounded : ∀ rule ∈ s.router.currentRules, rule < s.router.constructed

theorem Follows.frame {s s' : State} {list : List Json} (h : Follows s list)
    (hframe : Frame s.router s'.router) (hidle : s'.pending = none) : Follows s' list := by
  refine ⟨hidle, ?_, fun rule hrule => ?_⟩
  · rw [hframe.current, ← h.options]
    exact List.map_congr_left (fun rule hrule => hframe.options rule (h.bounded rule hrule))
  · rw [hframe.current] at hrule
    exact Nat.lt_of_lt_of_le (h.bounded rule hrule) hframe.constructed

theorem follows_ofRules (list : List Json) : Follows { router := .ofRules list } list := by
  refine ⟨rfl, List.ext_getElem? (fun i => ?_), fun rule hrule => List.mem_range.mp hrule⟩
  by_cases h : i < list.length
  · simp [Router.currentRules, Router.ofRules, h]
  · simp [Router.currentRules, Router.ofRules, h]

section

variable {env : Env} {call : Call} {b b' : Box} {plan : UserUpdatePlan} {users : Userstate.Manager}
  {updates : List InboundUpdate} {p : PreparedRules} {outbounds : Manager}
  {prepared : List Outbound}

section

variable (hplan : planUserUpdate env.lib b.config call.updated = .ok plan)
include hplan

theorem wantedRules_spec : (wantedRules call plan).map Wanted.option = rules call.updated ∧
      (∀ w ∈ wantedRules call plan, ∀ k, w.previous = some k →
        (rules b.config)[k]? = some w.option) ∧
        ((wantedRules call plan).filterMap Wanted.previous).Nodup := by
  obtain ⟨s, hs⟩ := accepted hplan
  have hnodup : ((rules b.config).zipIdx.map Prod.snd).Nodup := by
    rw [List.zipIdx_map_snd]
    exact List.nodup_range'
  obtain ⟨hforall, hdistinct, -⟩ := planRules_spec hnodup hs.ruleIndexes
  obtain ⟨hlength, hzip⟩ := List.forall₂_iff_zip.mp hforall
  refine ⟨?_, fun w hw k hk => ?_, ?_⟩
  · have hmap : (wantedRules call plan).map Wanted.option =
        (((rules call.updated).zip plan.ruleIndexes).zipIdx.map Prod.fst).map Prod.fst := by
      rw [List.map_map, wantedRules, List.map_map]
      rfl
    rw [hmap, List.zipIdx_map_fst, List.map_fst_zip hlength.le]
  · obtain ⟨⟨⟨option, index⟩, i⟩, hmem, rfl⟩ := List.mem_map.mp hw
    have hpair : (option, index) ∈ (rules call.updated).zip plan.ruleIndexes :=
      List.fst_mem_of_mem_zipIdx hmem
    exact List.mem_zipIdx_iff_getElem?.mp (hzip hpair k hk)
  · have hmap : (wantedRules call plan).filterMap Wanted.previous =
        ((((rules call.updated).zip plan.ruleIndexes).zipIdx.map Prod.fst).map
          Prod.snd).filterMap id := by
      simp [wantedRules, List.filterMap_map]
    rwa [hmap, List.zipIdx_map_fst, List.map_snd_zip hlength.ge]

theorem next_wanted (h : Follows b.rules (rules b.config))
    (hp : (RuleLeases.step (.prepare (wantedRules call plan)) b.rules).pending = some p) :
    List.Forall₂ (fun w rule => (∀ k, w.previous = some k →
      b.rules.router.currentRules[k]? = some rule) ∧
      (w.previous = none → b.rules.router.constructed ≤ rule ∧
        (RuleLeases.step (.prepare (wantedRules call plan)) b.rules).router.options
        rule = w.option))
      (wantedRules call plan) p.next := by
  have hlength : b.rules.router.currentRules.length = (rules b.config).length := by
    rw [← h.options, List.length_map]
  simp only [RuleLeases.step, h.idle] at hp ⊢
  obtain ⟨lists, hlists, rfl⟩ := Option.map_eq_some_iff.mp hp
  have hrange : ∀ w ∈ wantedRules call plan, ∀ k, w.previous = some k →
      k < b.rules.router.currentRules.length := by
    intro w hw k hk
    rw [hlength]
    exact (List.getElem?_eq_some_iff.mp ((wantedRules_spec hplan).2.1 w hw k hk)).1
  obtain ⟨tail, htail, hforall⟩ := Router.prepareRules_next hrange h.bounded (Prod.ext rfl hlists)
  rw [htail]
  exact hforall

theorem next_follows (h : Follows b.rules (rules b.config))
    (hp : (RuleLeases.step (.prepare (wantedRules call plan)) b.rules).pending = some p) :
    p.next.map (RuleLeases.step (.prepare (wantedRules call plan)) b.rules).router.options =
    rules call.updated ∧
      ∀ rule ∈ p.next, rule < (RuleLeases.step (.prepare (wantedRules call plan))
        b.rules).router.constructed := by
  have hframe := @step_frame (.prepare (wantedRules call plan)) nofun b.rules
  obtain ⟨hoptions, hprevious, -⟩ := wantedRules_spec hplan
  obtain ⟨hlength, hzip⟩ := List.forall₂_iff_zip.mp (next_wanted hplan h hp)
  refine ⟨?_, fun rule hrule => ?_⟩
  · rw [← hoptions]
    symm
    rw [← List.forall₂_eq_eq_eq, List.forall₂_map_left_iff, List.forall₂_map_right_iff]
    refine List.forall₂_iff_zip.mpr ⟨hlength, fun {w rule} hmem => ?_⟩
    cases hindex : w.previous with
    | none => exact ((hzip hmem).2 hindex).2.symm
    | some k =>
      have hrule := (hzip hmem).1 k hindex
      have hold := hprevious w (List.of_mem_zip hmem).1 k hindex
      rw [← h.options, List.getElem?_map, hrule] at hold
      rw [hframe.options rule (h.bounded rule (List.mem_of_getElem? hrule))]
      exact (Option.some.inj hold).symm
  · simp only [RuleLeases.step, h.idle] at hp ⊢
    obtain ⟨k, hbuilds, ⟨hnone, -⟩ | ⟨-, next, hsome, honly, -⟩⟩ :=
      b.rules.router.prepareAddedRules_cases (wantedRules call plan)
    · cases hnone.symm.trans hp
    cases hsome.symm.trans hp
    rw [hbuilds.constructed]
    obtain hmem | hmem := honly rule hrule
    · exact Nat.lt_of_lt_of_le (h.bounded rule hmem) (Nat.le_add_right _ _)
    · exact (List.mem_range'_1.mp hmem).2

end

theorem preparedRules_pending : (preparedRules b call plan).pending =
    (RuleLeases.step (.prepare (wantedRules call plan)) b.rules).pending := (run_leases _ _).2

theorem accepted_rules (hreload : AcceptedReload env call b b' plan users updates p
    outbounds prepared) :
    b'.rules = { preparedRules b call plan with
      router := (preparedRules b call plan).router.publishRules p, pending := none } := by
  have hpending := @preparedRules_pending call b plan
  rw [hreload.pending] at hpending
  rw [hreload.result, publishReload]
  simp only [RuleLeases.step, hpending]

theorem Follows.accepted (h : Follows b.rules (rules b.config))
    (hreload : AcceptedReload env call b b' plan users updates p outbounds prepared) :
    Follows b'.rules (rules call.updated) := by
  obtain ⟨hframe, -⟩ := run_leases call.acquisitions
    (RuleLeases.step (.prepare (wantedRules call plan)) b.rules)
  obtain ⟨hoptions, hbounded⟩ := next_follows hreload.planned.decided h hreload.pending
  obtain ⟨hconstructed, hsame⟩ := publishRules_same (preparedRules b call plan).router p
  rw [accepted_rules hreload]
  refine ⟨rfl, ?_, fun rule hrule => ?_⟩
  · rw [publishRules_current, hsame, ← hoptions]
    exact List.map_congr_left (fun rule hrule => hframe.options rule (hbounded rule hrule))
  rw [publishRules_current] at hrule
  rw [hconstructed]
  exact Nat.lt_of_lt_of_le (hbounded rule hrule) hframe.constructed

theorem step_abort_pending (s : State) : (RuleLeases.step .abort s).pending = none := by
  simp only [RuleLeases.step]
  split
  · rfl
  · assumption

theorem rejected_rules (hidle : b.rules.pending = none)
    (h : (reloadUsers env call b).2 ≠ .accepted) :
    Frame b.rules.router (reloadUsers env call b).1.rules.router ∧
    (reloadUsers env call b).1.rules.pending = none := by
  have hends := reload_ends env call b
  generalize reloadUsers env call b = result at h hends
  cases hends with
  | refused => exact ⟨.refl _, hidle⟩
  | rules _ hnone => exact ⟨@step_frame (.prepare _) nofun b.rules, hnone⟩
  | @outbounds plan =>
    have hprepare := @step_frame (.prepare (wantedRules call plan)) nofun b.rules
    have habort := @step_frame .abort nofun (preparedRules b call plan)
    exact ⟨(hprepare.trans (run_leases _ _).1).trans habort, step_abort_pending _⟩
  | accepted => exact absurd rfl h

theorem Follows.reload (h : Follows b.rules (rules b.config)) (env : Env) (call : Call) :
    Follows (reloadUsers env call b).1.rules (rules (reloadUsers env call b).1.config) := by
  by_cases haccepted : (reloadUsers env call b).2 = .accepted
  · obtain ⟨plan, users, updates, p, outbounds, prepared, hreload⟩ := accepted_cases haccepted
    have hconfig : (reloadUsers env call b).1.config = call.updated := by
      rw [hreload.result, publishReload]
    rw [hconfig]
    exact h.accepted hreload
  obtain ⟨hframe, hidle⟩ := rejected_rules h.idle haccepted
  obtain ⟨_, _, hsame⟩ := rejected_same haccepted
  have hconfig : (reloadUsers env call b).1.config = b.config := by rw [hsame]
  rw [hconfig]
  exact h.frame hframe hidle

end

end NodeManager.ReloadedRules
