import Mathlib.Algebra.Order.Ring.Int
import NodeManager.Outcomes

namespace NodeManager.RuntimeCore

open Outcomes

structure Status where
  instanceId : String
  revision : Nat
  contentHash : String
  deriving DecidableEq, Repr

/-- What the option registry and the planner of the binary make of a configuration. -/
structure Schema (Config Content : Type) where
  configObject : Config → Option Content
  fingerprint : Content → String
  planUserUpdate : Content → Content → Bool

structure Core (Content : Type) where
  instanceId : String
  revision : Nat
  content : Content
  closed : Bool := false
  deriving DecidableEq, Repr

variable {Config Content : Type}

def Core.status (schema : Schema Config Content) (core : Core Content) : Status :=
  ⟨core.instanceId, core.revision, schema.fingerprint core.content⟩

inductive Refusal
  | closed
  | conflict
  | invalid
  | unsupported
  deriving DecidableEq, Repr

def Refusal.code : Refusal → Nat
  | .conflict => 409
  | _ => 422

def nextRevision (revision : Nat) : Nat := (revision + 1) % 2 ^ 64

def reloadUsers (schema : Schema Config Content) (accepted : Bool) (updated : Config)
    (expectedRevision : Option Nat) (expectedInstance : String) (core : Core Content) :
    Except Refusal (Core Content) :=
  if core.closed then .error .closed
  else if expectedInstance ≠ "" ∧ expectedInstance ≠ core.instanceId then .error .conflict
  else match schema.configObject updated with
  | none => .error .invalid
  | some after =>
    if schema.fingerprint after = schema.fingerprint core.content then .ok core
    else if expectedRevision.any (· ≠ core.revision) then .error .conflict
    else if schema.planUserUpdate core.content after = false then .error .unsupported
    else if accepted = false then .error .invalid
    else .ok { core with content := after, revision := nextRevision core.revision }

def fenceUserRuntime (expectedRevision : Nat) (expectedInstance : String) (core : Core Content) :
    Except Refusal (Core Content) :=
  if core.closed then .error .closed
  else if expectedInstance ≠ core.instanceId ∨
    expectedRevision ≠ core.revision then .error .conflict
  else .ok { core with revision := nextRevision core.revision }

structure Preview where
  runtime : Status
  contentHash : String
  supported : Bool
  deriving DecidableEq, Repr

def previewUserUpdate (schema : Schema Config Content) (updated : Config) (core : Core Content) :
    Except Refusal Preview :=
  match schema.configObject updated with
  | none => .error .invalid
  | some after =>
    .ok
      { runtime := core.status schema
        contentHash := schema.fingerprint after
        supported := schema.fingerprint after = schema.fingerprint core.content ||
          schema.planUserUpdate core.content after }

inductive Request (Config : Type)
  | put (config : Config) (expected : Status)
  | fence (expected : Status)
  deriving DecidableEq, Repr

def Request.expected : Request Config → Status
  | .put _ expected | .fence expected => expected

def Request.perform (schema : Schema Config Content) (accepted : Bool) :
    Request Config → Core Content → Except Refusal (Core Content)
  | .put config expected, core =>
    reloadUsers schema accepted config (some expected.revision) expected.instanceId core
  | .fence expected, core => fenceUserRuntime expected.revision expected.instanceId core

def deliver (schema : Schema Config Content) (accepted : Bool) (request : Request Config)
    (core : Core Content) :
    Core Content := orUnchanged (request.perform schema accepted core) core

variable {schema : Schema Config Content} {accepted : Bool} {core core' : Core Content}
  {request : Request Config}

/-- A request that is not refused did nothing, or it went one revision on with the same content or
its own, and then the revision was the expected one. -/
theorem perform_ok (hok : request.perform schema accepted core = .ok core') :
    (core' = core ∧ ∃ config expected after, request = .put config expected ∧
      schema.configObject config = some after ∧
      schema.fingerprint after = schema.fingerprint core.content) ∨
    (request.expected.revision = core.revision ∧
      ((∃ expected, request = .fence expected ∧
        core' = { core with revision := nextRevision core.revision }) ∨
        ∃ config expected after, request = .put config expected ∧
        schema.configObject config = some after ∧
          schema.fingerprint after ≠ schema.fingerprint core.content ∧
          core' = { core with content := after, revision := nextRevision core.revision })) := by
  cases request with
  | fence expected =>
    rw [Request.perform, fenceUserRuntime] at hok
    split_ifs at hok with _ hmatch
    cases hok
    refine Or.inr ⟨?_, Or.inl ⟨expected, rfl, rfl⟩⟩
    by_contra hne
    exact hmatch (Or.inr hne)
  | put config expected =>
    rw [Request.perform, reloadUsers] at hok
    cases hafter : schema.configObject config with
    | none =>
      rw [hafter] at hok
      split_ifs at hok
    | some after =>
      rw [hafter] at hok
      dsimp only at hok
      split_ifs at hok with _ _ hsame hrevision
      · cases hok
        exact Or.inl ⟨rfl, config, expected, after, rfl, hafter, hsame⟩
      cases hok
      refine Or.inr ⟨?_, Or.inr ⟨config, expected, after, rfl, hafter, hsame, rfl⟩⟩
      simpa [Request.expected] using hrevision

theorem deliver_cases (schema : Schema Config Content) (accepted : Bool) (request : Request Config)
    (core : Core Content) :
    deliver schema accepted request core = core ∨
      (request.expected.revision = core.revision ∧ ∃ content,
        deliver schema accepted request core = { core with
          content := content, revision := nextRevision core.revision } ∧
        (content = core.content ∨ ∃ config expected, request = .put config expected ∧
          schema.configObject config = some content ∧
          schema.fingerprint content ≠ schema.fingerprint core.content)) := by
  unfold deliver
  cases hok : request.perform schema accepted core with
  | error refusal => exact Or.inl rfl
  | ok core' =>
    rcases perform_ok hok with ⟨rfl, _⟩ |
      ⟨hrevision, ⟨expected, _, rfl⟩ | ⟨config, expected, after, hput, hafter, hne, rfl⟩⟩
    · exact Or.inl rfl
    · exact Or.inr ⟨hrevision, core.content, rfl, Or.inl rfl⟩
    · exact Or.inr ⟨hrevision, after, rfl, Or.inr ⟨config, expected, hput, hafter, hne⟩⟩

/-- The agent refuses statuses beyond this revision, so no request carries one. -/
def revisionBound : Nat := 2 ^ 63

theorem nextRevision_eq {revision : Nat} (hr : revision ≤ revisionBound) :
    nextRevision revision = revision + 1 := by
  apply Nat.mod_eq_of_lt
  unfold revisionBound at hr
  omega

end NodeManager.RuntimeCore
