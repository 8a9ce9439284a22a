import NodeManager.RuntimeBox

namespace NodeManager.ReloadCases

open OutboundManager Runs RuntimeBox UserReload

structure Planned (env : Env) (call : Call) (b : Box) (plan : UserUpdatePlan)
    (users : Userstate.Manager) (updates : List InboundUpdate) : Prop where
  decided : planUserUpdate env.lib b.config call.updated = .ok plan
  options : checkOptions call.updated = true
  inbounds : prepareInbounds env b call plan.changedNames (plannedInbounds call plan) b.users =
    .ok (users, updates)

def preparedRules (b : Box) (call : Call) (plan : UserUpdatePlan) : RuleLeases.State :=
  run RuleLeases.step (call.acquisitions.map leaseAction)
    (RuleLeases.step (.prepare (wantedRules call plan)) b.rules)

def preparedOutbounds (env : Env) (b : Box) (call : Call) (plan : UserUpdatePlan) :
    Manager × Except String (List Outbound) :=
  b.outbounds.prepareUserUpdate env.dependencies (wantedOutbounds call plan) plan.removedOutbounds

variable {env : Env} {call : Call} {b : Box}

structure AcceptedReload (env : Env) (call : Call) (b b' : Box) (plan : UserUpdatePlan)
    (users : Userstate.Manager) (updates : List InboundUpdate) (p : RuleSnapshots.PreparedRules)
    (outbounds : Manager) (prepared : List Outbound) : Prop where
  planned : Planned env call b plan users updates
  pending : (RuleLeases.step (.prepare (wantedRules call plan)) b.rules).pending = some p
  ready : preparedOutbounds env b call plan = (outbounds, .ok prepared)
  result : b' = publishReload env b call plan users updates (preparedRules b call plan)
    outbounds prepared

inductive Ends (env : Env) (call : Call) (b : Box) : Box × Outcome → Prop
  | refused {outcome} (hne : outcome ≠ .accepted)
      (hsame : outcome = .unchanged → env.lib.fingerprint (.obj call.updated) = b.contentHash) :
      Ends env call b (b, outcome)
  | rules {plan users updates} (hplanned : Planned env call b plan users updates)
      (hnone : (RuleLeases.step (.prepare (wantedRules call plan)) b.rules).pending = none) :
      Ends env call b ({ b with
        rules := RuleLeases.step (.prepare (wantedRules call plan)) b.rules }, .failed .rules)
  | outbounds {plan users updates p outbounds message}
      (hplanned : Planned env call b plan users updates)
      (hp : (RuleLeases.step (.prepare (wantedRules call plan)) b.rules).pending = some p)
      (hready : preparedOutbounds env b call plan = (outbounds, .error message)) :
      Ends env call b ({ b with
        rules := RuleLeases.step .abort (preparedRules b call plan), outbounds := outbounds },
        .failed (.outbounds message))
  | accepted {b' plan users updates p outbounds prepared}
      (h : AcceptedReload env call b b' plan users updates p outbounds prepared) :
      Ends env call b (b', .accepted)

theorem reload_ends (env : Env) (call : Call) (b : Box) :
    Ends env call b (reloadUsers env call b) := by
  unfold reloadUsers
  split
  · exact .refused nofun nofun
  split
  · exact .refused nofun nofun
  split
  next hsame => exact .refused nofun (fun _ => hsame)
  split
  · exact .refused nofun nofun
  split
  · exact .refused nofun nofun
  next plan hplan =>
    split
    · exact .refused nofun nofun
    next hoptions =>
      split
      · exact .refused nofun nofun
      next users updates hinbounds =>
        have hplanned : Planned env call b plan users updates :=
          ⟨hplan, not_not.mp hoptions, hinbounds⟩
        unfold applyPlan
        dsimp only
        split
        next hnone => exact .rules hplanned hnone
        next p hp =>
          split
          next outbounds message hready => exact .outbounds hplanned hp hready
          next outbounds prepared hready => exact .accepted ⟨hplanned, hp, hready, rfl⟩

theorem accepted_cases (h : (reloadUsers env call b).2 = .accepted) :
    ∃ plan users updates p outbounds prepared,
    AcceptedReload env call b (reloadUsers env call b).1 plan users updates p outbounds
    prepared := by
  have hends := reload_ends env call b
  generalize reloadUsers env call b = result at h hends
  cases hends with
  | refused hne => exact absurd h hne
  | rules | outbounds => cases h
  | accepted haccepted => exact ⟨_, _, _, _, _, _, haccepted⟩

theorem unchanged_same (h : (reloadUsers env call b).2 = .unchanged) :
    env.lib.fingerprint (.obj call.updated) = b.contentHash ∧ (reloadUsers env call b).1 = b := by
  have hends := reload_ends env call b
  generalize reloadUsers env call b = result at h hends
  cases hends with
  | refused _ hsame => exact ⟨hsame h, rfl⟩
  | rules | outbounds | accepted => cases h

theorem rejected_same (h : (reloadUsers env call b).2 ≠ .accepted) : ∃ rules outbounds,
    (reloadUsers env call b).1 = { b with rules := rules, outbounds := outbounds } := by
  have hends := reload_ends env call b
  generalize reloadUsers env call b = result at h hends
  cases hends with
  | refused => exact ⟨b.rules, b.outbounds, rfl⟩
  | rules => exact ⟨_, b.outbounds, rfl⟩
  | outbounds => exact ⟨_, _, rfl⟩
  | accepted => exact absurd rfl h

end NodeManager.ReloadCases
