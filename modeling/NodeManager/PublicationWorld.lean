import NodeManager.Publication

namespace NodeManager.PublicationWorld

open Programs RuntimeCore Publication

structure Disk (Config : Type) where
  files : String → Option FileState
  current : Option FileState
  journal : Option (Journal Config)

/-- A verdict on a publication, with the content of the core at that point. -/
structure Settlement (Content : Type) where
  prepared : Prepared
  verdict : Verdict
  content : Content

structure World (Config Content : Type) where
  core : Core Content
  flight : List (Request Config)
  disk : Disk Config
  socket : String
  settled : List (Settlement Content)

/-- How an operation goes: as it should, refused inside the core, failed without effect, or failed
after its effect (a write) or before it (a request still on its way). -/
inductive Choice
  | proceed
  | refuse
  | fail (failure : Failure)
  | late
  | merged (aliases : Aliases)

variable {Config Content : Type} {schema : Schema Config Content} {request : Request Config}
  {w : World Config Content} {choice : Choice}

def isHexDigest (text : String) : Bool :=
  text.length = 64 && text.toList.all (fun c => ('0' ≤ c && c ≤ '9') || ('a' ≤ c && c ≤ 'f'))

def validStatus (status : Status) : Bool :=
  decide (1 ≤ status.instanceId.length ∧ status.instanceId.length ≤ 128 ∧
    status.revision < revisionBound) && isHexDigest status.contentHash

def validateStatus (status : Status) : Except Failure Status :=
  if validStatus status then .ok status else .error .unavailable

def validatePreview (preview : Preview) : Except Failure Preview :=
  if validStatus preview.runtime ∧ isHexDigest preview.contentHash then .ok preview
  else .error .unavailable

def unlessFailed {α : Type} (result : Except Failure α) : Choice → Except Failure α
  | .fail failure => .error failure
  | _ => result

def refusedWith (refusal : Refusal) : Request Config → Nat
  | .put _ _ => refusal.code
  | .fence _ => 409

def World.send (schema : Schema Config Content) (request : Request Config)
    (w : World Config Content) :
    Choice → Except Failure Status × World Config Content
  | .fail failure => (.error failure, w)
  | .late => (.error .unavailable, { w with flight := request :: w.flight })
  | choice =>
    match request.perform schema (match choice with | .refuse => false | _ => true) w.core with
    | .ok core => (validateStatus (core.status schema), { w with core := core })
    | .error refusal => (.error (.rejected (refusedWith refusal request)), w)

def World.write (change : Disk Config → Disk Config) (w : World Config Content) :
    Choice → Except Failure Unit × World Config Content
  | .fail failure => (.error failure, w)
  | .late => (.error (.os "directory synchronization failed"), { w with disk := change w.disk })
  | _ => (.ok (), { w with disk := change w.disk })

def Disk.read (disk : Disk Config) : File → Option FileState
  | .target path => disk.files path
  | .current => disk.current

def FileRecord.written (process : Owner) (record : FileRecord) : FileState :=
  ⟨record.data, record.mode, record.owner.getD process⟩

def Disk.restore (process : Owner) (file : File) (record : Option FileRecord) (disk : Disk Config) :
    Disk Config :=
  match file with
  | .target path =>
    { disk with files := Function.update disk.files path (record.map (FileRecord.written process)) }
  | .current => { disk with current := record.map (FileRecord.written process) }

def Disk.setJournal (journal : Option (Journal Config)) (disk : Disk Config) : Disk Config :=
  { disk with journal := journal }

def respond (schema : Schema Config Content) (process : Owner) (choice : Choice) :
    (op : Op Config) → World Config Content → Except Failure (Answer op) × World Config Content
  | .checkMode, w =>
    (unlessFailed (if w.socket = "" then .error .unavailable else .ok w.socket) choice, w)
  | .enabled, w => (.ok (w.socket ≠ ""), w)
  | .status, w => (unlessFailed (validateStatus (w.core.status schema)) choice, w)
  | .preview config, w =>
    match previewUserUpdate schema config w.core with
    | .ok preview => (unlessFailed (validatePreview preview) choice, w)
    | .error refusal => (unlessFailed (.error (.rejected refusal.code)) choice, w)
  | .apply config expected, w => w.send schema (.put config expected) choice
  | .fence expected, w => w.send schema (.fence expected) choice
  | .capture file, w => (unlessFailed (.ok (w.disk.read file)) choice, w)
  | .restore file record, w => w.write (Disk.restore process file record) choice
  | .journalExists, w => (.ok w.disk.journal.isSome, w)
  | .readJournal, w =>
    match w.disk.journal with
    | some journal => (unlessFailed (.ok journal) choice, w)
    | none => (.error (.os "no such file"), w)
  | .writeJournal journal, w => w.write (Disk.setJournal (some journal)) choice
  | .removeJournal, w =>
    match choice with
    | .fail failure => (.error failure, w)
    | _ => (.ok (), { w with disk := w.disk.setJournal none })
  | .readAliases, w | .mergeAliases _ _, w =>
    match choice with
    | .merged aliases => (.ok aliases, w)
    | _ => (.error (.config "runtime authentication name belongs to another historical user"), w)
  | .bindOwners _, w | .versions _, w => (unlessFailed (.ok ()) choice, w)
  | .settle prepared verdict, w =>
    (.ok (), { w with settled := ⟨prepared, verdict, w.core.content⟩ :: w.settled })

theorem send_ok {status : Status} (hok : (w.send schema request choice).1 = .ok status) :
    ∃ accepted core, request.perform schema accepted w.core = .ok core ∧
      (w.send schema request choice).2 = { w with core := core } ∧
      validateStatus (core.status schema) = .ok status := by
  cases choice with
  | fail failure => cases hok
  | late => cases hok
  | _ =>
    simp only [World.send] at hok ⊢
    split at hok
    next core hcore => exact ⟨_, core, hcore, rfl, hok⟩
    next => cases hok

theorem send_error {failure : Failure} (herr : (w.send schema request choice).1 = .error failure) :
    (w.send schema request choice).2 = w ∨
    (w.send schema request choice).2 = { w with flight := request :: w.flight } ∨
      ∃ accepted core, request.perform schema accepted w.core = .ok core ∧
        (w.send schema request choice).2 = { w with core := core } := by
  cases choice with
  | fail failure => exact Or.inl rfl
  | late => exact Or.inr (Or.inl rfl)
  | _ =>
    simp only [World.send] at herr ⊢
    split
    next core hcore => exact Or.inr (Or.inr ⟨_, core, hcore, rfl⟩)
    next => exact Or.inl rfl

theorem write_cases (change : Disk Config → Disk Config) (w : World Config Content)
    (choice : Choice) :
    (w.write change choice).2 = { w with disk := change w.disk } ∨
      ((w.write change choice).2 = w ∧ ∃ failure, (w.write change choice).1 = .error failure) := by
  cases choice with
  | fail failure => exact Or.inr ⟨rfl, failure, rfl⟩
  | _ => exact Or.inl rfl

inductive Event
  | deliver (index : Nat) (accepted : Bool)
  | close
  | configure (socket : String)

def Event.occur (schema : Schema Config Content) :
    Event → World Config Content → World Config Content
  | .deliver index accepted, w =>
    match w.flight[index]? with
    | some request =>
      { w with
        core := RuntimeCore.deliver schema accepted request w.core, flight :=
        w.flight.eraseIdx index }
    | none => w
  | .close, w => { w with core := { w.core with closed := true } }
  | .configure socket, w => { w with socket := socket }

theorem occur_cases (schema : Schema Config Content) (event : Event) (w : World Config Content) :
    (∃ request ∈ w.flight, ∃ accepted flight, (∀ other ∈ flight, other ∈ w.flight) ∧
      event.occur schema w = { w with
        core := deliver schema accepted request w.core, flight := flight }) ∨
    ∃ closed socket, event.occur schema w = { w with
      core := { w.core with closed := closed }, socket := socket } := by
  cases event with
  | deliver index accepted =>
    cases hr : w.flight[index]? with
    | none => exact Or.inr ⟨w.core.closed, w.socket, by simp only [Event.occur, hr]⟩
    | some request =>
      refine Or.inl ⟨request, List.mem_of_getElem? hr, accepted, w.flight.eraseIdx index, ?_, ?_⟩
      · exact fun other ho => List.mem_of_mem_eraseIdx ho
      · simp only [Event.occur, hr]
  | close => exact Or.inr ⟨true, w.socket, rfl⟩
  | configure socket => exact Or.inr ⟨w.core.closed, socket, rfl⟩

def network (schema : Schema Config Content) (process : Owner) :
    System (World Config Content) (@Answer Config) Failure where
  Choice := Choice
  Event := Event
  respond := respond schema process
  env := Event.occur schema

def volatile (schema : Schema Config Content) (process : Owner) :
    System (World Config Content) (@Answer Config) Failure where
  Choice := Choice
  Event := Event ⊕ Core Content
  respond := respond schema process
  env
    | .inl event, w => event.occur schema w
    | .inr core, w => { w with core := core }

end NodeManager.PublicationWorld
