import NodeManager.Programs
import NodeManager.Revisions

namespace NodeManager.RevisionTransaction

open JsonValues Programs Revisions

inductive File
  | config
  | registry
  | state
  | current
  | lastGood
  | bundle
  | lastGoodBundle
  deriving DecidableEq, Repr

def File.all : List File := [.config, .registry, .state, .current, .lastGood, .bundle,
    .lastGoodBundle]

structure Record (Text : Type) where
  bytes : Text
  mode : Nat
  owner : Nat × Nat
  deriving DecidableEq, Repr

abbrev Snapshot (Text : Type) := File → Option (Record Text)

inductive Phase
  | prepared
  | committed
  deriving DecidableEq, Repr

structure Journal (Text : Type) where
  version : Nat
  phase : Phase
  before : Snapshot Text
  beforeHash : String
  revisionId : Option String
  bundleHash : String

structure Codec (Text : Type) where
  configText : Object → Text
  registryText : Registry → Text
  bundleText : Bundle → Text
  stateText : State → Text
  parseConfig : Text → Option Object
  parseRegistry : Text → Option Registry
  parseBundle : Text → Option Bundle
  parseState : Text → Option State
  parse_configText : ∀ config, parseConfig (configText config) = some config
  parse_registryText : ∀ registry, parseRegistry (registryText registry) = some registry
  parse_bundleText : ∀ b, parseBundle (bundleText b) = some b
  parse_stateText : ∀ state, parseState (stateText state) = some state
  digestBefore : Snapshot Text → String

inductive Failure
  | config (message : String)
  | other (message : String)
  deriving DecidableEq, Repr

def Failure.message : Failure → String
  | .config message | .other message => message

inductive Op (Text : Type)
  | validate (config : Object)
  | capture (file : File)
  | writeJournal (journal : Journal Text)
  | write (file : File) (bytes : Text) (mode : Nat) (owner : Option (Nat × Nat))
  | syncRegistry
  | observe
  | reload
  | now
  | readState
  | readBundle
  | journalExists
  | readJournal
  | restore (file : File) (record : Option (Record Text))
  | removeJournal

variable {Text : Type}

@[reducible] def Answer : Op Text → Type
  | .capture _ => Option (Record Text)
  | .observe => Object × Registry
  | .reload | .journalExists => Bool
  | .now => String
  | .readState => State
  | .readBundle => Bundle
  | .readJournal => Option (Journal Text)
  | _ => Unit

abbrev Revision (Text α : Type) := Prog (@Answer Text) Failure α

def ask (op : Op Text) : Revision Text (Answer op) := Prog.ask op

def raise {α : Type} (failure : Failure) : Revision Text α := Prog.raise failure

def captureAll : List File → Snapshot Text → Revision Text (Snapshot Text)
  | [], before => pure before
  | file :: files, before => do
    let record ← ask (.capture file)
    captureAll files (Function.update before file record)

def writeJson (file : File) (bytes : Text) : Revision Text Unit :=
  ask (.write file bytes 0o600 none)

/-- The bundle that was live before, if both files were there; `none` if they are not JSON. -/
def previousOf (codec : Codec Text) (env : Env) (state : State) (before : Snapshot Text) :
    Option (Option Bundle) :=
  match before .config, before .registry with
  | some config, some registry =>
    match codec.parseConfig config.bytes, codec.parseRegistry registry.bytes with
    | some config, some registry => some (some (env.previous state config registry))
    | _, _ => none
  | _, _ => some none

def keepPrevious (codec : Codec Text) (env : Env) (state : State) (before : Snapshot Text) :
    Revision Text State :=
  match previousOf codec env state before with
  | none => raise (.other "JSONDecodeError")
  | some none => pure state
  | some (some previous) => do
    writeJson .lastGoodBundle (codec.bundleText previous)
    writeJson .lastGood (codec.configText previous.config)
    pure (state.keep env previous)

def publish (codec : Codec Text) (env : Env) (target : Bundle) (state : State) (action : String)
    (journal : Journal Text) :
    Revision Text State := do
  let old := journal.before .config
  ask (.write .config (codec.configText target.config) ((old.map (·.mode)).getD 0o600)
    (old.map (·.owner)))
  ask (.write .registry (codec.registryText target.registry) 0o600 none)
  ask .syncRegistry
  let observed ← ask .observe
  if env.digest (env.bundle target.revisionId observed.1 observed.2) ≠ env.digest target then
    raise (.config "revision file readback mismatch")
  else if ← ask .reload then
    let kept ← keepPrevious codec env state journal.before
    writeJson .bundle (codec.bundleText target)
    writeJson .current (codec.configText target.config)
    let appliedAt ← ask .now
    let time ← ask .now
    let published := kept.publish env target action appliedAt time
    writeJson .state (codec.stateText published)
    let read ← ask .readState
    let observed ← ask .observe
    if read ≠ published ∨ env.digest (env.bundle target.revisionId observed.1 observed.2) ≠
      env.digest target then
      raise (.config "revision commit readback mismatch")
    else
      ask (.writeJournal { journal with phase := .committed })
      pure published
  else raise (.config "sing-box reload failed")

def recoverCommitted (env : Env) (journal : Journal Text) : Revision Text Bool := do
  let state ← ask .readState
  let observed ← ask .observe
  let current ← ask .readBundle
  if env.digest (env.bundle journal.revisionId observed.1 observed.2) ≠ journal.bundleHash ∨
      state.bundleHash ≠ some journal.bundleHash ∨ state.currentRevisionId ≠ journal.revisionId ∨
      env.digest current ≠ journal.bundleHash then
    raise (.other "committed files changed")
  else
    ask .removeJournal
    pure true

def recoverPrepared [DecidableEq Text] (codec : Codec Text) (journal : Journal Text) :
    Revision Text Bool := do
  if journal.beforeHash ≠ codec.digestBefore journal.before then
    raise (.other "invalid recovery record")
  else
    Prog.forEach (fun file => ask (.restore file (journal.before file))) File.all
    Prog.forEach (fun file => do
      let record ← ask (.capture file)
      if record ≠ journal.before file then raise (.other "recovery readback mismatch")
      else pure ()) File.all
    if journal.before .config = none then raise (.other "previous runtime could not be restored")
    else if ← ask .reload then
      ask .removeJournal
      pure true
    else raise (.other "previous runtime could not be restored")

def recoverLocked [DecidableEq Text] (codec : Codec Text) (env : Env) : Revision Text Bool := do
  if ← ask .journalExists then
    Prog.handle (do
      match ← ask .readJournal with
      | none => raise (.other "JSONDecodeError")
      | some journal =>
        if journal.version ≠ 1 then raise (.other "invalid recovery version")
        else
          match journal.phase with
          | .committed => recoverCommitted env journal
          | .prepared => recoverPrepared codec journal)
      (fun _ => raise (.config "revision recovery required; journal retained"))
  else pure false

def rollBack [DecidableEq Text] (codec : Codec Text) (env : Env) (error : Failure) :
    Revision Text State := do
  match ← (recoverLocked codec env).attempt with
  | .error (.config _) => raise (.config "revision failed; recovery required; journal retained")
  | .error failure => raise failure
  | .ok _ => raise (.config ("revision failed; previous bundle restored: " ++ error.message))

def commit [DecidableEq Text] (codec : Codec Text) (env : Env) (target : Bundle) (state : State)
    (action : String) : Revision Text State := do
  ask (.validate target.config)
  let before ← captureAll File.all (fun _ => none)
  let journal : Journal Text := ⟨1, .prepared, before, codec.digestBefore before, target.revisionId,
    env.digest target⟩
  ask (.writeJournal journal)
  match ← (publish codec env target state action journal).attempt with
  | .ok published =>
    ask .removeJournal
    pure published
  | .error error => rollBack codec env error

inductive Slip
  | marker
  | removal
  deriving DecidableEq, Repr

structure Disk (Text : Type) where
  files : Snapshot Text
  journal : Option (Journal Text)
  slips : List Slip

inductive Fault
  | before
  | after
  deriving DecidableEq, Repr

structure Choice where
  fault : Option Fault := none
  reloaded : Bool := true
  time : String := ""

def change (choice : Choice) (d after : Disk Text) (slips : List Slip) :
    Except Failure Unit × Disk Text :=
  match choice.fault with
  | none => (.ok (), after)
  | some .before => (.error (.other "OSError"), d)
  | some .after => (.error (.other "OSError"), { after with slips := slips ++ after.slips })

def answer {α : Type} (choice : Choice) (d : Disk Text) (value : Option α) :
    Except Failure α × Disk Text :=
  match choice.fault, value with
  | none, some value => (.ok value, d)
  | _, _ => (.error (.other "OSError"), d)

def Disk.text (d : Disk Text) (file : File) : Option Text := (d.files file).map (·.bytes)

def Disk.put (d : Disk Text) (file : File) (record : Option (Record Text)) : Disk Text :=
  { d with files := Function.update d.files file record }

def observed (codec : Codec Text) (d : Disk Text) : Option (Object × Registry) := do
  let config ← (d.text .config).bind codec.parseConfig
  let registry ← (d.text .registry).bind codec.parseRegistry
  pure (config, registry)

def respond (codec : Codec Text) (process : Nat × Nat) (choice : Choice) :
    (op : Op Text) → Disk Text → Except Failure (Answer op) × Disk Text
  | .validate _, d => answer choice d (some ())
  | .capture file, d => answer choice d (some (d.files file))
  | .writeJournal journal, d =>
    change choice d { d with
      journal := some journal } (if journal.phase = .committed then [.marker] else [])
  | .write file bytes mode owner, d =>
    change choice d (d.put file (some ⟨bytes, mode, owner.getD process⟩)) []
  | .syncRegistry, d => change choice d d []
  | .observe, d => answer choice d (observed codec d)
  | .reload, d => answer choice d (some choice.reloaded)
  | .now, d => (.ok choice.time, d)
  | .readState, d => answer choice d ((d.text .state).bind codec.parseState)
  | .readBundle, d => answer choice d ((d.text .bundle).bind codec.parseBundle)
  | .journalExists, d => (.ok d.journal.isSome, d)
  | .readJournal, d => answer choice d (some d.journal)
  | .restore file record, d => change choice d (d.put file record) []
  | .removeJournal, d =>
    change choice d { d with
      journal := none } (if d.journal.any (·.phase = .committed) then [.removal] else [])

def disk (codec : Codec Text) (process : Nat × Nat) :
    System (Disk Text) (@Answer Text) Failure where
  Choice := Choice
  Event := Empty
  respond := respond codec process
  env event := event.elim

def assertNoPendingTransaction (d : Disk Text) : Except Failure Unit :=
  if d.journal.isSome then
    .error (.config "revision recovery required before configuration mutations")
  else .ok ()

end NodeManager.RevisionTransaction
