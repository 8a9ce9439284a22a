import NodeManager.OutboundServing
import NodeManager.ReloadedInbounds
import NodeManager.ReloadedRules

namespace NodeManager.ColdStart

open Dictionary JsonValues OutboundManager Outcomes ReloadCases ReloadPlans ReloadedOutbounds Runs
  RuntimeBox UserReload
open ReloadedInbounds ReloadedRules OutboundServing

/-- What traffic sees: the rules in their order, the options under each tag, and the default. -/
@[ext]
structure Running where
  rules : List Json
  outbounds : String → Option Made
  default : Option DefaultRoute

def running (b : Box) : Running where
  rules := b.rules.router.currentRules.map b.rules.router.options
  outbounds := viewOutbound b.outbounds
  default := viewDefault b.outbounds

structure Serving (env : Env) (first : Object) (b : Box) : Prop where
  outbounds : Serves first b.outbounds b.config
  rules : Follows b.rules (rules b.config)
  marshalled : Marshalled b.config
  options : checkOptions b.config = true
  inbounds : ∀ entry ∈ taggedRows (JsonValues.rows b.config "inbounds"), supported entry.2 = true →
    Startable env.lib entry.2

section

variable {env : Env} {first : Object} {b : Box} {instanceId : String}

theorem startable_of_newInbound {lib : Library} {state state' : Userstate.Manager × (String → Bool)}
    {entry : String × Object} (h : newInbound lib state entry = .ok state')
    (hsupported : supported entry.2 = true) :
    Startable lib entry.2 := by
  rw [newInbound, if_pos hsupported] at h
  obtain ⟨users, husers, -⟩ := bind_eq_ok h
  exact startable_of_prepared husers

theorem start_serving {config : Object} (hm : Marshalled config)
    (h : start env instanceId config = .ok b) :
    Serving env config b ∧ b.config = config := by
  obtain ⟨_, hoptions, h⟩ := bind_eq_ok h
  obtain ⟨users, husers, h⟩ := bind_eq_ok h
  obtain ⟨outbounds, houtbounds, h⟩ := bind_eq_ok h
  cases h
  have hstart : ∀ entry ∈ taggedRows (rows config "inbounds"), supported entry.2 = true →
    Startable env.lib entry.2 :=
    foldlM_ok (motive := fun seen _ => ∀ entry ∈ seen, supported entry.2 = true →
      Startable env.lib entry.2) (fun seen _ entry _ _ hseen hstep found hfound hsupported => by
        obtain hfound | hfound := List.mem_append.mp hfound
        · exact hseen found hfound hsupported
        · rw [List.mem_singleton.mp hfound] at hsupported ⊢
          exact startable_of_newInbound hstep hsupported) nofun husers
  exact ⟨⟨start_serves (of_require hoptions) houtbounds, follows_ofRules _, hm, of_require hoptions,
    hstart⟩, rfl⟩

theorem Serving.reload (h : Serving env first b) (call : Call) :
    Serving env first (reloadUsers env call b).1 := by
  by_cases haccepted : (reloadUsers env call b).2 = .accepted
  · obtain ⟨plan, users, updates, p, outbounds, prepared, hreload⟩ := accepted_cases haccepted
    obtain ⟨s, hs⟩ := accepted hreload.planned.decided
    have hr := replacing hs hreload.ready
    have hrules := h.rules.accepted hreload
    rw [hreload.result] at hrules ⊢
    refine ⟨h.outbounds.publish h.marshalled hs hreload.planned.options hr _, hrules,
      h.marshalled.accepted hs, hreload.planned.options, fun entry hentry hsupported => ?_⟩
    change entry ∈ taggedRows (rows call.updated "inbounds") at hentry
    rw [taggedRows_eq hs.newIn, Dict.mem_entries_iff] at hentry
    by_cases hchanged : inboundChanged s.oldIn plan.changedNames entry.2 = true
    · exact startable_of_planned hreload.planned.inbounds
        ((mem_plannedInbounds hs).mpr ⟨entry.1, hentry, hchanged⟩)
    refine h.inbounds entry ?_ hsupported
    rw [taggedRows_eq hs.oldIn]
    exact Dict.mem_entries_iff.mpr (same_of_not_changed hs hentry hchanged).1
  · obtain ⟨k, hbuilds, -⟩ := @rejected_outbounds env call b haccepted
    have hrules := h.rules.reload env call
    obtain ⟨rules, outbounds, hsame⟩ := rejected_same haccepted
    rw [hsame] at hbuilds hrules ⊢
    exact ⟨h.outbounds.builds hbuilds, hrules, h.marshalled, h.options, h.inbounds⟩

theorem Serving.step (h : Serving env first b) (action : Action) :
    Serving env first (RuntimeBox.step env action b) := by
  cases action with
  | reload call => exact h.reload call
  | lease acquisition =>
    have hframe := step_frame (leaseAction_ne_commit acquisition) b.rules
    have hidle := (step_lease_pending acquisition b.rules).trans h.rules.idle
    exact ⟨h.outbounds, h.rules.frame hframe hidle, h.marshalled, h.options, h.inbounds⟩
  | newSession => exact { h with }
  | bind handle token =>
    simp only [RuntimeBox.step]
    split
    · exact { h with }
    · exact h
  | closeSession handle => exact { h with }

theorem Serving.run (h : Serving env first b) (actions : List Action) :
    Serving env first (run (RuntimeBox.step env) actions b) := by
  induction actions generalizing b with
  | nil => exact h
  | cons action actions ih => exact ih (h.step action)

theorem Serving.restart (h : Serving env first b) (instanceId : String) : ∃ fresh,
    start env instanceId b.config = .ok fresh := by
  have hinbounds : ∀ state, ∀ entry ∈ taggedRows (rows b.config "inbounds"),
      ∃ state', newInbound env.lib state entry = .ok state' := by
    intro state entry hentry
    rw [newInbound]
    split
    next hsupported =>
      obtain ⟨users, husers⟩ := h.inbounds entry hentry hsupported (state.2 entry.1)
      rw [husers]
      exact ⟨_, rfl⟩
    · exact ⟨state, rfl⟩
  obtain ⟨users, husers⟩ := foldlM_total hinbounds ({}, fun _ => false)
  have houtbounds : ∃ m, (newOutbounds env b.config).start = .ok m := by
    have hm := newOutbounds_creating env h.options
    unfold Manager.start
    split
    next hnone =>
      rw [hm.defaultTag] at hnone ⊢
      have hchosen : chosen (finalTag b.config) (outboundRows b.config) = none := by
        rw [← viewDefault_eq_none, hm.default, Option.map_eq_none_iff] at hnone
        exact hnone.2
      rw [if_pos (hm.endpoints ▸ h.outbounds.endpoint hnone.1 hchosen)]
      exact ⟨_, rfl⟩
    · split <;> exact ⟨_, rfl⟩
  obtain ⟨outbounds, houtbounds⟩ := houtbounds
  rw [start, require, if_pos h.options, ok_bind, husers, ok_bind, houtbounds, ok_bind]
  exact ⟨_, rfl⟩

theorem running_start (hm : Marshalled b.config) {fresh : Box}
    (h : start env instanceId b.config = .ok fresh) :
    running fresh = ⟨rules b.config, coldOutbound b.config, some (coldDefault b.config)⟩ := by
  obtain ⟨hserving, hconfig⟩ := start_serving hm h
  have hserves := hserving.outbounds
  rw [hconfig] at hserves
  refine Running.ext ?_ (hserves.outbounds_eq (fun hneeds => ?_)) ?_
  · rw [← hconfig]
    exact hserving.rules.options
  · exact (coldDefault_eq_fallback_iff (needsFallback_iff.mp hneeds).1).mp
      (coldDefault_of_needsFallback hneeds)
  change viewDefault fresh.outbounds = _
  rw [hserves.default]
  split
  next hneeds => rw [coldDefault_of_needsFallback hneeds]
  · rfl

/-- An instance runs like a fresh one, unless it was started without a default and an outbound other
than the built-in one has become the first since. -/
theorem running_eq_cold_iff {instanceId : String} {config : Object} {b₀ : Box}
    (hmarshalled : Marshalled config) (hstart : start env instanceId config = .ok b₀)
    (actions : List Action) (instanceId' : String) :
    ∃ fresh, start env instanceId' (run (RuntimeBox.step env) actions b₀).config = .ok fresh ∧
      (running (run (RuntimeBox.step env) actions b₀) = running fresh ↔
        (needsFallback config → StartsBuiltIn (run (RuntimeBox.step env) actions b₀).config)) := by
  have hserving := (start_serving hmarshalled hstart).1.run actions
  revert hserving
  generalize run (RuntimeBox.step env) actions b₀ = b
  intro hserving
  obtain ⟨fresh, hfresh⟩ := hserving.restart instanceId'
  refine ⟨fresh, hfresh, ?_⟩
  rw [running_start hserving.marshalled hfresh]
  have hserves := hserving.outbounds
  have hdefault : (running b).default = some (coldDefault b.config) ↔
      (needsFallback config → StartsBuiltIn b.config) := by
    change viewDefault b.outbounds = _ ↔ _
    rw [hserves.default, Option.some.injEq]
    split
    next hneeds =>
      rw [eq_comm, coldDefault_eq_fallback_iff
        (hserves.final.trans (needsFallback_iff.mp hneeds).1)]
      simp [hneeds]
    next hneeds => simp [hneeds]
  constructor
  · intro heq
    exact hdefault.mp (congrArg Running.default heq)
  · intro hbuilt
    exact Running.ext hserving.rules.options (hserves.outbounds_eq hbuilt) (hdefault.mpr hbuilt)

end

def direct (tags : List String) : Object :=
  [("outbounds", .arr (tags.map (fun tag => .obj [("tag", .str tag), ("type", .str "direct")])))]

def directEnv : Env where
  lib := ⟨id, fun value => if value = .obj (direct []) then "none"
    else if value = .obj (direct ["a"]) then "a" else "ab"⟩
  dependencies _ := []

theorem marshalled_direct (tags : List String) : Marshalled (direct tags) := nofun

/-- An outbound is added behind the default. -/
theorem added_outbound_runs_cold : ∃ b₀ fresh, start directEnv "" (direct ["a"]) = .ok b₀ ∧
    (reloadUsers directEnv { updated := direct ["a", "b"] } b₀).2 = .accepted ∧
      start directEnv "" (direct ["a", "b"]) = .ok fresh ∧
        running (run (RuntimeBox.step directEnv) [.reload { updated := direct ["a", "b"] }] b₀) =
        running fresh := by
  obtain ⟨fresh, hfresh, hiff⟩ :=
    @running_eq_cold_iff directEnv "" (direct ["a"]) _ (marshalled_direct ["a"]) rfl
    [.reload { updated := direct ["a", "b"] }] ""
  exact ⟨_, fresh, rfl, by decide, hfresh, hiff.mpr (fun hneeds => absurd hneeds (by decide))⟩

/-- An outbound is added to an instance that has none: the default stays the built-in one, but not
after a restart. -/
theorem first_outbound_not_default : ∃ b₀ fresh, start directEnv "" (direct []) = .ok b₀ ∧
    (reloadUsers directEnv { updated := direct ["a"] } b₀).2 = .accepted ∧
      start directEnv "" (direct ["a"]) = .ok fresh ∧
        running (run (RuntimeBox.step directEnv) [.reload { updated := direct ["a"] }] b₀) ≠
        running fresh := by
  refine ⟨_, _, rfl, by decide, rfl, fun heq => ?_⟩
  have hdefault := congrArg Running.default heq
  revert hdefault
  decide

end NodeManager.ColdStart
