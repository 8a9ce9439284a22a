import NodeManager.PublicationWorld
import NodeManager.Submissions

namespace NodeManager.VersionedTasks

open Dictionary Identities Outcomes Programs Publication PublicationWorld RuntimeCore
  Singbox WriteQueue
open Submissions

structure FileCodec where
  configPath : String
  registryPath : String
  distinct : configPath ≠ registryPath
  configText : Files → String
  registryText : Files → String
  load : Option String → Option String → Option Files
  load_text : ∀ files, load (some (configText files)) (some (registryText files)) = some files

def diskFiles (files : FileCodec) (disk : Disk Files) : Option Files :=
  files.load ((disk.files files.configPath).map (·.data))
    ((disk.files files.registryPath).map (·.data))

def commitOf (files : FileCodec) (socksTag : String) (current updated : Files)
    (related : Dict String String) :
    Commit Files where
  config := published socksTag updated
  previousConfig := current
  targets := (related.set files.configPath (files.configText (published socksTag updated))).set
    files.registryPath (files.registryText (published socksTag updated))
  archivedVersions := archivedVersions updated

/-- The world of a publication with the table of versions in the history. -/
structure Archive (Content : Type) where
  world : World Files Content
  history : Dict String Nat

variable {Content : Type}

def recordVersions (choice : Choice × Bool) : Op Files → Dict String Nat → Dict String Nat
  | .versions values, history =>
    match choice with
    | (.fail _, false) => history
    | _ => raiseVersions history values
  | _, history => history

def respond (schema : Schema Files Content) (process : Owner) (choice : Choice × Bool)
    (op : Op Files) (a : Archive Content) : Except Failure (Answer op) × Archive Content :=
  ((PublicationWorld.respond schema process choice.1 op a.world).1,
    ⟨(PublicationWorld.respond schema process choice.1 op a.world).2,
      recordVersions choice op a.history⟩)

def archiving (schema : Schema Files Content) (process : Owner) :
    System (Archive Content) (@Answer Files) Failure where
  Choice := Choice × Bool
  Event := Event ⊕ Core Content
  respond := respond schema process
  env event a := { a with world := (volatile schema process).env event a.world }

structure Batch where
  items : List (TaskId × Work)
  records : List Record

/-- The pending publication with the verdicts before it, the committed versions, newest first, and
the committed items. -/
structure State (Content : Type) where
  archive : Archive Content
  pending : Option (Batch × List (Settlement Content)) := none
  log : List Record := []
  committed : List (TaskId × Work) := []

def proved (base : List (Settlement Content)) (w : World Files Content) : Bool :=
  decide (base.length < w.settled.length) &&
    w.settled.head?.any (fun entry => entry.verdict.receipt.contentHash = entry.prepared.targetHash)

def State.commit (batch : Batch) (s : State Content) : State Content :=
  { s with log := batch.records ++ s.log, committed := s.committed ++ batch.items }

/-- A publication goes on while its journal is there; then its tasks are committed or not. -/
def State.settle (batch : Batch) (base : List (Settlement Content)) (a : Archive Content)
    (s : State Content) :
    State Content :=
  if a.world.disk.journal.isSome then { s with archive := a, pending := some (batch, base) }
  else
    let s := { s with archive := a, pending := none }
    if proved base a.world then s.commit batch else s

structure Env (Content : Type) where
  schema : Schema Files Content
  process : Owner
  codec : Codec Files
  files : FileCodec
  socksTag : String

/-- The worker applies a batch, or a pending publication is recovered; both may be stopped
anywhere. -/
inductive Step (env : Env Content)
  | batch (items : List (TaskId × Work)) (related : Dict String String)
      (schedule : List (Action (archiving env.schema env.process)))
  | recover (schedule : List (Action (archiving env.schema env.process)))

def step (env : Env Content) : Step env → State Content → State Content
  | .batch items related schedule, s =>
    if s.archive.world.disk.journal.isSome then s
    else
      match diskFiles env.files s.archive.world.disk with
      | none => s
      | some files =>
        match runBatch s.archive.history items files with
        | .error _ => s
        | .ok ⟨updated, records⟩ =>
          if updated = files ∧ related = Dict.empty then s.commit ⟨items, records⟩
          else s.settle ⟨items, records⟩ s.archive.world.settled
            (session (archiving env.schema env.process)
              (commitFiles env.codec (commitOf env.files env.socksTag files updated related),
                schedule) s.archive)
  | .recover schedule, s =>
    let a := session (archiving env.schema env.process)
      (recoverLocked env.codec, schedule) s.archive
    match s.pending with
    | none => { s with archive := a }
    | some (batch, base) => s.settle batch base a

def State.start (a : Archive Content) : State Content where
  archive := { a with world := { a.world with disk := a.world.disk.setJournal none } }

end NodeManager.VersionedTasks
