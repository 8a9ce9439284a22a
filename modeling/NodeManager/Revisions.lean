import NodeManager.Dictionary
import NodeManager.JsonValues

namespace NodeManager.Revisions

open Dictionary JsonValues

structure Registry where
  version : Option Json := none
  users : Object := []
  expiredUsers : Option Object := none
  runtimeUserVersions : Option (Dict String Nat) := none
  other : Object := []
  deriving DecidableEq

def Registry.withDefaults (registry : Registry) : Registry :=
  { registry with
    version := some (registry.version.getD (.num 2))
    expiredUsers := some (registry.expiredUsers.getD []) }

def Registry.empty : Registry := { version := some (.num 2), expiredUsers := some [] }

structure Bundle where
  version : Nat := 2
  nodeId : String
  revisionId : Option String
  config : Object
  registry : Registry
  deriving DecidableEq

structure HistoryEntry where
  revisionId : Option String
  hash : String
  action : String
  error : Option String
  time : String
  deriving DecidableEq

structure State where
  version : Nat := 1
  currentRevisionId : Option String := none
  currentHash : Option String := none
  lastGoodRevisionId : Option String := none
  lastGoodHash : Option String := none
  status : String := "unknown"
  appliedAt : Option String := none
  lastError : Option String := none
  history : List HistoryEntry := []
  bundleHash : Option String := none
  configHash : Option String := none
  registryHash : Option String := none
  runtimeContentHash : Option String := none
  verificationScope : Option String := none
  revisionDigests : Dict String String := Dict.empty
  deriving DecidableEq

structure Env where
  nodeId : String
  digest : Bundle → String
  digestConfig : Object → String
  digestRegistry : Registry → String

def Env.shortDigest (env : Env) (b : Bundle) : String :=
  String.ofList ((env.digest b).toList.take 32)

def Env.localId (env : Env) (b : Bundle) : String := "local-" ++ env.shortDigest b

def Env.bundle (env : Env) (revisionId : Option String) (config : Object)
    (registry : Registry) : Bundle :=
  { nodeId := env.nodeId, revisionId := revisionId, config := config, registry := registry }

/-- The files as they are, under the current revision if they are its bundle, else under an identity
of their own. -/
def Env.previous (env : Env) (state : State) (config : Object) (registry : Registry) : Bundle :=
  let previous := env.bundle state.currentRevisionId config registry
  if previous.revisionId = none ∨ some (env.digest previous) ≠ state.bundleHash then
    { previous with revisionId := some (env.localId previous) }
  else previous

def State.keep (env : Env) (previous : Bundle) (state : State) : State :=
  { state with
    lastGoodRevisionId := previous.revisionId, lastGoodHash := some (env.digest previous) }

def State.appendHistory (entry : HistoryEntry) (state : State) : State :=
  { state with history := (state.history ++ [entry]).drop (state.history.length + 1 - 20) }

def State.publish (env : Env) (target : Bundle) (action appliedAt time : String)
    (state : State) : State :=
  let hash := env.digest target
  State.appendHistory ⟨target.revisionId, hash, action, none, time⟩
    { state with
      version := 2
      currentRevisionId := target.revisionId
      currentHash := some hash
      bundleHash := some hash
      configHash := some (env.digestConfig target.config)
      registryHash := some (env.digestRegistry target.registry)
      status := action
      appliedAt := some appliedAt
      lastError := none
      revisionDigests := match target.revisionId with
        | none => state.revisionDigests
        | some revisionId => state.revisionDigests.set revisionId hash }

end NodeManager.Revisions
