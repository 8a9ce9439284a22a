import NodeManager.Identities
import NodeManager.Outcomes
import NodeManager.WriteQueue

namespace NodeManager.Submissions

open Dictionary Identities Outcomes Singbox WriteQueue

structure Listener where
  type : String
  tag : String
  requireAuth : Option Bool := none
  deriving DecidableEq, Repr

/-- The configuration and the registry: what mutations work on, and what a publication writes
itself, `require_auth` and `runtimeUserVersions`. -/
structure Files where
  node : Node
  listeners : List Listener
  versions : Dict String Nat
  deriving DecidableEq, Repr

def secure (socksTag : String) (listener : Listener) : Listener :=
  if listener.type = "socks" ∧ listener.tag = socksTag then
    { listener with requireAuth := some true }
  else listener

/-- What is published for a working copy: the versions of users that are gone move to the
history. -/
def published (socksTag : String) (files : Files) : Files :=
  { files with
    listeners := files.listeners.map (secure socksTag)
    versions := files.versions.filterKeys
      (· ∈ discoverUserIds files.node.inbounds files.node.users) }

def archivedVersions (files : Files) : Dict String Nat :=
  files.versions.filterKeys (· ∉ discoverUserIds files.node.inbounds files.node.users)

def raiseVersions (history : Dict String Nat) (values : Dict String Nat) : Dict String Nat :=
  values.entries.foldl (fun history entry =>
    history.set entry.1 (max ((history.get? entry.1).getD 0) entry.2)) history

/-- `user_version`: the registry has the versions of active users, the history those of others. -/
def userVersion (history versions : Dict String Nat) (userId : String) : Nat :=
  max ((versions.get? userId).getD 0) ((history.get? userId).getD 0)

structure Command where
  userId : String
  expectedUserVersion : Option Nat
  callback : Node → Except String Node

/-- A task of the API, or a mutation of one user or of none that `mutate_config` submits. -/
inductive Work
  | task (commands : List Command)
  | mutation (userId : Option String) (callback : Node → Except String Node)

structure Demand where
  taskId : TaskId
  userId : String
  expected : Option Nat
  deriving DecidableEq, Repr

def demands (item : TaskId × Work) : List Demand :=
  match item.2 with
  | .task commands =>
    commands.map (fun command => ⟨item.1, command.userId, command.expectedUserVersion⟩)
  | .mutation userId _ => userId.toList.map (fun userId => ⟨item.1, userId, none⟩)

structure Record extends Demand where
  version : Nat
  deriving DecidableEq, Repr

structure Workspace where
  files : Files
  records : List Record

def runCommand (history : Dict String Nat) (taskId : TaskId) (w : Workspace) (command : Command) :
    Except String Workspace := do
  let previous := userVersion history w.files.versions command.userId
  require (∀ expected ∈ command.expectedUserVersion, expected = previous)
    "user version changed; refresh before submitting a new task"
  let node ← command.callback w.files.node
  pure ⟨{ w.files with
    node := node, versions := w.files.versions.set command.userId (previous + 1) },
    ⟨⟨taskId, command.userId, command.expectedUserVersion⟩, previous + 1⟩ :: w.records⟩

def runMutation (history : Dict String Nat) (taskId : TaskId) (userId : Option String)
    (callback : Node → Except String Node) (w : Workspace) : Except String Workspace := do
  let node ← callback w.files.node
  match userId with
  | none => pure { w with files := { w.files with node := node } }
  | some userId =>
    let version := userVersion history w.files.versions userId + 1
    pure ⟨{ w.files with node := node, versions := w.files.versions.set userId version },
      ⟨⟨taskId, userId, none⟩, version⟩ :: w.records⟩

def runItem (history : Dict String Nat) (w : Workspace) (item : TaskId × Work) :
    Except String Workspace :=
  match item.2 with
  | .task commands => commands.foldlM (runCommand history item.1) w
  | .mutation userId callback => runMutation history item.1 userId callback w

def runBatch (history : Dict String Nat) (items : List (TaskId × Work)) (files : Files) :
    Except String Workspace := items.foldlM (runItem history) ⟨files, []⟩

theorem secure_secure (socksTag : String) (listener : Listener) :
    secure socksTag (secure socksTag listener) = secure socksTag listener := by
  unfold secure
  split <;> rfl

theorem published_published (socksTag : String) (files : Files) :
    published socksTag (published socksTag files) = published socksTag files := by
  have hlisteners : (files.listeners.map (secure socksTag)).map (secure socksTag) =
      files.listeners.map (secure socksTag) := by
    rw [List.map_map]
    exact List.map_congr_left (fun listener _ => secure_secure socksTag listener)
  exact congrArg₂ (fun listeners versions => Files.mk files.node listeners versions) hlisteners
    (Dict.filterKeys_filterKeys files.versions
      (· ∈ discoverUserIds files.node.inbounds files.node.users))

variable {history versions : Dict String Nat}

theorem userVersion_set (userId other : String) (version : Nat) :
    userVersion history (versions.set userId version) other =
      if other = userId then max version ((history.get? other).getD 0)
      else userVersion history versions other := by
  rw [userVersion, Dict.get?_set]
  split
  · rw [Option.getD_some]
  · rfl

theorem getD_raiseVersions (history values : Dict String Nat) (userId : String) :
    ((raiseVersions history values).get? userId).getD 0 =
      max ((history.get? userId).getD 0) ((values.get? userId).getD 0) := by
  have h := Dict.get?_foldl_update history values (fun _ => False)
    (fun old version => max (old.getD 0) version) userId
  simp only [if_false] at h
  rw [raiseVersions, h]
  cases values.get? userId with
  | none => simp
  | some version => rfl

end NodeManager.Submissions
