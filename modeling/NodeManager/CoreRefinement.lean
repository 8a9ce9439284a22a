import NodeManager.ColdStart
import NodeManager.RuntimeCore

namespace NodeManager.CoreRefinement

open JsonValues Outcomes ReloadCases RuntimeBox RuntimeCore Runs UserReload ColdStart

def core (b : Box) : Core (Object × String) :=
  ⟨b.instanceId, b.revision, (b.config, b.contentHash), b.done⟩

def schema (lib : Library) : Schema Object (Object × String) where
  configObject config := some (config, lib.fingerprint (.obj config))
  fingerprint := Prod.snd
  planUserUpdate before after := (planUserUpdate lib before.1 after.1).isOk

def coreStep (lib : Library) : Action × Bool → Core (Object × String) → Core (Object × String)
  | (.reload call, accepted), c =>
    orUnchanged (RuntimeCore.reloadUsers (schema lib) accepted call.updated
      call.expectedRevision call.expectedInstance c) c
  | _, c => c

theorem core_step {b : Box} (env : Env) (action : Action) :
    ∃ accepted, core (step env action b) = coreStep env.lib (action, accepted) (core b) := by
  cases action with
  | reload call =>
    by_cases h : (RuntimeBox.reloadUsers env call b).2 = .accepted
    · obtain ⟨_, _, _, _, _, _, hbox⟩ := accepted_cases h
      have hplan : (planUserUpdate env.lib b.config call.updated).isOk ≠ false := by
        rw [hbox.planned.decided]
        nofun
      refine ⟨true, ?_⟩
      rw [RuntimeBox.reloadUsers] at h
      iterate 4
        split at h
        · cases h
      rename_i hdone hinstance hsame hrevision
      have hcore : RuntimeCore.reloadUsers (schema env.lib) true call.updated call.expectedRevision
          call.expectedInstance (core b) = .ok _ :=
          (if_neg hdone).trans ((if_neg hinstance).trans ((if_neg hsame).trans
            ((if_neg hrevision).trans ((if_neg hplan).trans (if_neg nofun)))))
      rw [step, hbox.result, coreStep, hcore, core, core]
      rfl
    obtain ⟨_, _, hbox⟩ := rejected_same h
    refine ⟨false, ?_⟩
    rw [step, hbox, coreStep, RuntimeCore.reloadUsers]
    (repeat' split) <;> first | rfl | contradiction
  | bind handle token =>
    rw [step]
    split <;> exact ⟨true, rfl⟩
  | _ => exact ⟨true, rfl⟩

/-- Every run of an instance is one of the core, action by action. -/
theorem instance_refines_core (env : Env) (actions : List Action) (b : Box) :
    ∃ steps, steps.map Prod.fst = actions ∧
    core (run (step env) actions b) = run (coreStep env.lib) steps (core b) := by
  induction actions generalizing b with
  | nil => exact ⟨[], rfl, rfl⟩
  | cons action actions ih =>
    obtain ⟨accepted, hcore⟩ := core_step (b := b) env action
    obtain ⟨steps, hsteps, hrun⟩ := ih (step env action b)
    refine ⟨(action, accepted) :: steps, by rw [List.map_cons, hsteps], ?_⟩
    rw [run, run, hrun, hcore]

def adding : List Action := [.reload { updated := direct ["a", "b"] }]

theorem adding_refines_core : ∃ b₀ steps, start directEnv "" (direct ["a"]) = .ok b₀ ∧
    steps.map Prod.fst = adding ∧
    core (run (step directEnv) adding b₀) = run (coreStep directEnv.lib) steps (core b₀) := by
  exact ⟨_, (instance_refines_core directEnv adding _).imp (fun _ h => ⟨rfl, h⟩)⟩

end NodeManager.CoreRefinement
