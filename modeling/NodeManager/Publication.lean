import NodeManager.Dictionary
import NodeManager.Programs
import NodeManager.RuntimeCore

namespace NodeManager.Publication

open Dictionary Programs RuntimeCore

inductive Failure
  | unavailable
  | rejected (status : Nat)
  | recoveryRequired (message : String)
  | config (message : String)
  | os (message : String)
  | value (message : String)
  deriving DecidableEq, Repr

def Failure.isConfigError : Failure → Bool
  | .os _ | .value _ => false
  | _ => true

abbrev Owner := Nat × Nat

structure FileState where
  data : String
  mode : Nat
  owner : Owner
  deriving DecidableEq, Repr

/-- What `capture` records of a file and `restore` writes; the default owner is the writing
process. -/
structure FileRecord where
  data : String
  mode : Nat
  owner : Option Owner
  deriving DecidableEq, Repr

inductive File
  | target (path : String)
  | current
  deriving DecidableEq, Repr

structure Prepared where
  socket : String
  expected : Status
  previousHash : String
  targetHash : String
  deriving DecidableEq, Repr

abbrev Aliases := Dict String String

abbrev Versions := Dict String Nat

abbrev Records := List (String × Option FileRecord)

structure JournalBody (Config : Type) where
  version : Nat
  prepared : Prepared
  config : Config
  before : Records
  after : Records
  oldReceipt : Option FileRecord
  authAliases : Aliases
  archivedVersions : Versions

structure Journal (Config : Type) extends JournalBody Config where
  integrity : String

inductive Outcome
  | applied
  | unchanged
  deriving DecidableEq, Repr

structure Verdict where
  outcome : Outcome
  receipt : Status
  deriving DecidableEq, Repr

/-- What the agent asks of the socket, the files and the identity history. The last operation is not
in the source: it marks where the outcome of a publication is known. -/
inductive Op (Config : Type)
  | checkMode
  | enabled
  | status
  | preview (config : Config)
  | apply (config : Config) (expected : Status)
  | fence (expected : Status)
  | capture (file : File)
  | restore (file : File) (record : Option FileRecord)
  | journalExists
  | readJournal
  | writeJournal (journal : Journal Config)
  | removeJournal
  | readAliases
  | mergeAliases (config : Config) (aliases : Aliases)
  | bindOwners (aliases : Aliases)
  | versions (values : Versions)
  | settle (prepared : Prepared) (verdict : Verdict)

variable {Config : Type}

@[reducible] def Answer : Op Config → Type
  | .checkMode => String
  | .enabled | .journalExists => Bool
  | .status | .apply _ _ | .fence _ => Status
  | .preview _ => Preview
  | .capture _ => Option FileState
  | .readJournal => Journal Config
  | .readAliases | .mergeAliases _ _ => Aliases
  | _ => Unit

abbrev Agent (Config : Type) := Prog (@Answer Config) Failure

structure Codec (Config : Type) where
  digest : JournalBody Config → String
  receipt : Config → Status → Aliases → String

def ask (op : Op Config) : Agent Config (Answer op) := Prog.ask op

def raise {α : Type} (failure : Failure) : Agent Config α := Prog.raise failure

def prepare (previous desired : Config) : Agent Config Prepared := do
  let _ ← ask .checkMode
  let old ← ask (.preview previous)
  let target ← ask (.preview desired)
  if old.runtime ≠ target.runtime ∨ old.runtime.contentHash ≠ old.contentHash then
    raise (.config "runtime configuration drift; publication refused")
  else if target.supported = false then
    raise (.config "unsupported runtime topology change; publication refused")
  else
    let socket ← ask .checkMode
    pure ⟨socket, old.runtime, old.contentHash, target.contentHash⟩

def conclude (prepared : Prepared) (verdict : Verdict) : Agent Config Verdict := do
  ask (.settle prepared verdict)
  pure verdict

def tryFence (status : Status) : Agent Config (Option Status) :=
  Prog.handle (do let fenced ← ask (.fence status); pure (some fenced))
    (fun failure => if failure = .rejected 409 then pure none else raise failure)

def resolveRounds (prepared : Prepared) : Nat → Agent Config Verdict
  | 0 => raise (.recoveryRequired "runtime changed during recovery; journal retained")
  | rounds + 1 => do
    let status ← ask .status
    if status.contentHash = prepared.targetHash then conclude prepared ⟨.applied, status⟩
    else if status.contentHash ≠ prepared.previousHash then
      raise (.recoveryRequired "runtime state conflicts with pending publication; journal retained")
    else
      match ← tryFence status with
      | none => resolveRounds prepared rounds
      | some fenced =>
        if fenced.instanceId ≠ status.instanceId ∨ fenced.contentHash ≠ prepared.previousHash ∨
            fenced.revision ≤ status.revision then
          raise (.recoveryRequired "runtime recovery fence could not be verified")
        else conclude prepared ⟨.unchanged, fenced⟩

def resolve (prepared : Prepared) : Agent Config Verdict := do
  let socket ← ask .checkMode
  if prepared.socket ≠ socket then
    raise (.recoveryRequired "runtime socket changed during pending publication")
  else resolveRounds prepared 3

/-- The PUT and the status read after it; the receipt is returned if both prove the target. -/
def putAndObserve (config : Config) (prepared : Prepared) : Agent Config (Option Status) := do
  let receipt ← ask (.apply config prepared.expected)
  if receipt.contentHash = prepared.targetHash ∧
    receipt.instanceId = prepared.expected.instanceId then
    let observed ← ask .status
    if observed.instanceId = receipt.instanceId ∧ observed.contentHash = prepared.targetHash ∧
        receipt.revision ≤ observed.revision then
      pure (some receipt)
    else pure none
  else pure none

def publish (config : Config) (prepared : Prepared) : Agent Config Verdict := do
  let proved ← Prog.handle (putAndObserve config prepared) (fun failure =>
    match failure with
    | .unavailable | .rejected _ => pure none
    | failure => raise failure)
  match proved with
  | some receipt => conclude prepared ⟨.applied, receipt⟩
  | none => resolve prepared

def matchesRecord (observed : Option FileState) : Option FileRecord → Bool
  | none => observed = none
  | some record => observed.any (fun file =>
      file.data = record.data ∧ file.mode = record.mode ∧ record.owner.all (· = file.owner))

def readBack (item : String × Option FileRecord) : Agent Config Unit := do
  let observed ← ask (.capture (.target item.1))
  if matchesRecord observed item.2 then pure ()
  else raise (.os "runtime transaction file readback mismatch")

def writeRecords (records : Records) : Agent Config Unit := do
  Prog.forEach (fun item => ask (.restore (.target item.1) item.2)) records
  Prog.forEach readBack records

def writeReceipt (codec : Codec Config) (config : Config) (receipt : Status) (aliases : Aliases)
    (archived : Versions) :
    Agent Config Unit := do
  let previous ← ask .readAliases
  ask (.bindOwners previous)
  ask (.bindOwners aliases)
  ask (.versions archived)
  ask (.restore .current (some ⟨codec.receipt config receipt aliases, 0o600, none⟩))

def recordReceipt (codec : Codec Config) (body : JournalBody Config) (receipt : Status) :
    Agent Config Unit :=
  writeReceipt codec body.config receipt body.authAliases body.archivedVersions

def undo (body : JournalBody Config) : Agent Config Unit := do
  writeRecords body.before
  ask (.restore .current body.oldReceipt)

def finish (codec : Codec Config) (body : JournalBody Config) (verdict : Verdict) :
    Agent Config Unit :=
  match verdict.outcome with
  | .applied => do
    writeRecords body.after
    recordReceipt codec body verdict.receipt
    ask .removeJournal
  | .unchanged => do
    undo body
    ask .removeJournal

def recoverJournal (codec : Codec Config) : Agent Config (Option Verdict) := do
  let _ ← ask .checkMode
  let journal ← ask .readJournal
  if journal.version ≠ 1 ∨ codec.digest journal.toJournalBody ≠ journal.integrity then
    raise (.value "invalid runtime journal")
  else
    let verdict ← resolve journal.prepared
    finish codec journal.toJournalBody verdict
    pure (some verdict)

def recoverLocked (codec : Codec Config) : Agent Config (Option Verdict) := do
  let pending ← ask .journalExists
  if pending = false then pure none
  else
    let enabled ← ask .enabled
    if enabled = false then
      raise (.recoveryRequired "enable the recorded runtime mode before recovering its journal")
    else
      Prog.handle (recoverJournal codec)
        (fun _ => raise (.recoveryRequired "runtime recovery required; journal retained"))

def FileState.record (file : FileState) : FileRecord := ⟨file.data, file.mode, some file.owner⟩

def captureRecord (file : File) : Agent Config (Option FileRecord) := do
  let observed ← ask (.capture file)
  pure (observed.map FileState.record)

structure Captured where
  path : String
  data : String
  old : Option FileRecord
  deriving DecidableEq, Repr

def captureTargets : List (String × String) → Agent Config (List Captured)
  | [] => pure []
  | (path, data) :: targets => do
    let old ← captureRecord (.target path)
    let rest ← captureTargets targets
    pure (⟨path, data, old⟩ :: rest)

def Captured.before (captured : Captured) : String × Option FileRecord :=
  (captured.path, captured.old)

def Captured.after (captured : Captured) : String × Option FileRecord :=
  (captured.path, some ⟨captured.data, (captured.old.map (·.mode)).getD 0o600,
    captured.old.bind (·.owner)⟩)

/-- A call of `commit_files`; the targets are resolved paths and bytes, after the versions of
inactive users left the registry. -/
structure Commit (Config : Type) where
  config : Config
  previousConfig : Config
  targets : Dict String String
  archivedVersions : Versions
  prepared : Option Prepared := none

def preparedFor (commit : Commit Config) : Agent Config Prepared :=
  match commit.prepared with
  | none => prepare commit.previousConfig commit.config
  | some prepared => pure prepared

def openJournal (codec : Codec Config) (commit : Commit Config) :
    Agent Config (JournalBody Config) := do
  let pending ← ask .journalExists
  if pending then raise (.recoveryRequired
    "runtime recovery required; transaction journal retained")
  else
    let prepared ← preparedFor commit
    let captured ← captureTargets commit.targets.entries
    let oldReceipt ← captureRecord .current
    let known ← ask .readAliases
    let aliases ← ask (.mergeAliases commit.previousConfig known)
    let aliases ← ask (.mergeAliases commit.config aliases)
    let body : JournalBody Config :=
      { version := 1
        prepared := prepared
        config := commit.config
        before := captured.map (·.before)
        after := captured.map (·.after)
        oldReceipt := oldReceipt
        authAliases := aliases
        archivedVersions := commit.archivedVersions }
    Prog.handle (ask (.writeJournal { body with integrity := codec.digest body }))
      (fun failure => do
      let visible ← ask .journalExists
      if visible then raise (.recoveryRequired
        "runtime journal persistence uncertain; recovery required")
      else raise failure)
    pure body

def publishFiles (codec : Codec Config) (body : JournalBody Config) : Agent Config Status := do
  writeRecords body.after
  let verdict ← publish body.config body.prepared
  match verdict.outcome with
  | .unchanged =>
    undo body
    ask .removeJournal
    raise (.config "runtime update rejected; previous files restored")
  | .applied =>
    recordReceipt codec body verdict.receipt
    ask .removeJournal
    pure verdict.receipt

def commitFailed (codec : Codec Config) (failure : Failure) : Agent Config Status :=
  if failure.isConfigError then do
    let pending ← ask .journalExists
    if pending then raise (.recoveryRequired
      "runtime recovery required; transaction journal retained")
    else raise failure
  else do
    let recovered ← Prog.handle (recoverLocked codec) (fun _ =>
      raise (.recoveryRequired
        "runtime publication uncertain; recovery required; journal retained"))
    match recovered with
    | some ⟨.applied, receipt⟩ => pure receipt
    | _ => raise (.config "runtime publication failed; previous files restored")

def commitFiles (codec : Codec Config) (commit : Commit Config) : Agent Config Status := do
  let body ← openJournal codec commit
  Prog.handle (publishFiles codec body) (commitFailed codec)

inductive Call (Config : Type)
  | commit (commit : Commit Config)
  | commitPrepared (commit : Commit Config)
  | recover

def Call.program (codec : Codec Config) : Call Config → Agent Config Unit
  | .commit request => do
    let _ ← commitFiles codec { request with prepared := none }
    pure ()
  | .commitPrepared request => do
    let prepared ← prepare request.previousConfig request.config
    let _ ← commitFiles codec { request with prepared := some prepared }
    pure ()
  | .recover => do
    let _ ← recoverLocked codec
    pure ()

end NodeManager.Publication
