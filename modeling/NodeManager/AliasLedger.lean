import NodeManager.Identities
import NodeManager.PublicationWorld

namespace NodeManager.AliasLedger

open Dictionary Singbox Identities Outcomes Programs RuntimeCore Publication
open PublicationWorld (Disk)

def ownedByAnother : Failure :=
  .config "runtime authentication name belongs to another historical user"

def claimName (previous : Aliases) (userId : String) (aliases : Aliases) (name : String) :
    Except Failure Aliases :=
  if (previous.get? name).any (· ≠ userId) then .error ownedByAnother
  else .ok (aliases.set name userId)

def claimNames (previous : Aliases) (s : Node) (aliases : Aliases) (userId : String) :
    Except Failure Aliases :=
  (userAuthNames s.users userId).foldlM (claimName previous userId) aliases

def mergeAliases (owners : Dict String String) (s : Node) (previous : Aliases)
    (order : List String) :
    Except Failure Aliases := do
  let aliases ← order.foldlM (claimNames previous s) Dict.empty
  require (∀ entry ∈ aliases.entries, ∀ owner ∈ owners.get? entry.1, owner = entry.2) ownedByAnother
  pure aliases

/-- `bind_owners`: new names are inserted, and everything is rolled back if a name belongs to
another user. -/
def bindOwners (owners : Dict String String) (values : Aliases) :
    Except Failure (Dict String String) := do
  let bound := values.entries.foldl (fun owners entry => owners.setDefault entry.1 entry.2) owners
  require (∀ entry ∈ values.entries, bound.get? entry.1 = some entry.2)
    (.config "authentication name belongs to another historical user")
  pure bound

def HasName (s : Node) (userId name : String) : Prop :=
  userId ∈ discoverUserIds s.inbounds s.users ∧ name ∈ userAuthNames s.users userId

instance (s : Node) (userId name : String) : Decidable (HasName s userId name) := by
  unfold HasName; infer_instance

def Bound (owners : Dict String String) (aliases : Aliases) : Prop :=
  ∀ name userId, aliases.get? name = some userId → owners.get? name = some userId

/-- What the aliases give a name to has the name, and no name of a user that was visited went to
anyone before. -/
structure Claimed (previous : Aliases) (s : Node) (seen : List String)
    (aliases : Aliases) : Prop where
  only : ∀ name userId, aliases.get? name = some userId → userId ∈ seen ∧
    name ∈ userAuthNames s.users userId
  listed : ∀ userId ∈ seen, ∀ name ∈ userAuthNames s.users userId, (aliases.get? name).isSome = true
  free : ∀ userId ∈ seen, ∀ name ∈ userAuthNames s.users userId, ∀ owner ∈ previous.get? name,
    owner = userId

variable {previous aliases aliases' : Aliases} {owners bound : Dict String String} {s : Node}
  {seen order : List String} {userId : String}

theorem claimName_ok {name : String} (h : claimName previous userId aliases name = .ok aliases') :
    aliases' = aliases.set name userId ∧ ∀ owner ∈ previous.get? name, owner = userId := by
  unfold claimName at h
  split at h
  · cases h
  next hfree =>
    cases h
    refine ⟨rfl, fun owner howner => ?_⟩
    rw [Option.mem_def.mp howner] at hfree
    simpa using hfree

theorem Claimed.user (h : Claimed previous s seen aliases)
    (hok : claimNames previous s aliases userId = .ok aliases') :
    Claimed previous s (seen ++ [userId]) aliases' := by
  -- the names of the user that were claimed so far, over the aliases of the users before
  have hall : (∀ name other, aliases'.get? name = some other → aliases.get? name = some other ∨
        other = userId ∧ name ∈ userAuthNames s.users userId) ∧
      (∀ name, (aliases.get? name).isSome = true ∨ name ∈ userAuthNames s.users userId →
        (aliases'.get? name).isSome = true) ∧
      ∀ name ∈ userAuthNames s.users userId, ∀ owner ∈ previous.get? name, owner = userId := by
    refine foldlM_ok (motive := fun names (claimed : Aliases) =>
      (∀ name other, claimed.get? name = some other → aliases.get? name = some other ∨
        other = userId ∧ name ∈ names) ∧
      (∀ name, (aliases.get? name).isSome = true ∨ name ∈ names →
        (claimed.get? name).isSome = true) ∧
      ∀ name ∈ names, ∀ owner ∈ previous.get? name, owner = userId) ?_
      ⟨fun _ _ hget => .inl hget, fun _ hname => hname.resolve_right List.not_mem_nil, nofun⟩ hok
    rintro names claimed name claimed' - ⟨honly, hsome, hprevious⟩ hstep
    obtain ⟨rfl, howner⟩ := claimName_ok hstep
    refine ⟨fun other holder hget => ?_, fun other hother => ?_, fun other hother => ?_⟩
    · rw [Dict.get?_set] at hget
      split at hget
      next heq =>
        cases hget
        exact .inr ⟨rfl, by simp [heq]⟩
      next =>
        obtain hold | ⟨rfl, hmem⟩ := honly other holder hget
        · exact .inl hold
        · exact .inr ⟨rfl, List.mem_append_left _ hmem⟩
    · rw [Dict.get?_set]
      split
      next => rfl
      next hne =>
        refine hsome other (hother.imp_right (fun hmem => ?_))
        exact (List.mem_append.mp hmem).resolve_right (by simpa using hne)
    · obtain hmem | hmem := List.mem_append.mp hother
      · exact hprevious other hmem
      · rw [List.mem_singleton.mp hmem]
        exact howner
  obtain ⟨honly, hsome, hprevious⟩ := hall
  refine ⟨fun name other hget => ?_, fun other hother name hname => ?_,
    fun other hother name hname => ?_⟩
  · obtain hold | ⟨rfl, hmem⟩ := honly name other hget
    · exact ⟨List.mem_append_left _ (h.only name other hold).1, (h.only name other hold).2⟩
    · exact ⟨List.mem_append_right _ (List.mem_singleton_self _), hmem⟩
  · obtain hother | hother := List.mem_append.mp hother
    · exact hsome name (.inl (h.listed other hother name hname))
    · rw [List.mem_singleton.mp hother] at hname
      exact hsome name (.inr hname)
  · obtain hother | hother := List.mem_append.mp hother
    · exact h.free other hother name hname
    · rw [List.mem_singleton.mp hother] at hname ⊢
      exact hprevious name hname

theorem mergeAliases_ok (h : mergeAliases owners s previous order = .ok aliases) :
    Claimed previous s order aliases ∧
      ∀ name userId, aliases.get? name = some userId →
      ∀ owner ∈ owners.get? name, owner = userId := by
  obtain ⟨claimed, hclaimed, h⟩ := bind_eq_ok h
  obtain ⟨_, hstored, h⟩ := bind_eq_ok h
  cases h
  refine ⟨?_, fun name userId hget =>
    of_require hstored (name, userId) (Dict.mem_entries_iff.mpr hget)⟩
  refine foldlM_ok (motive := Claimed previous s) ?_
    ⟨(fun _ _ hget => by cases hget), nofun, nofun⟩ hclaimed
  exact fun seen t userId t' _ hseen hstep => hseen.user hstep

theorem bindOwners_ok (h : bindOwners owners aliases = .ok bound) :
    (∀ name userId, owners.get? name = some userId → bound.get? name = some userId) ∧
    Bound bound aliases := by
  obtain ⟨_, hbound, h⟩ := bind_eq_ok h
  cases h
  refine ⟨fun name userId howner => ?_, fun name userId hget =>
    of_require hbound (name, userId) (Dict.mem_entries_iff.mpr hget)⟩
  have hstep (owners : Dict String String) (entry : String × String) (_ : entry ∈ aliases.entries)
      (hkept : owners.get? name = some userId) :
      (owners.setDefault entry.1 entry.2).get? name = some userId := by
    rw [Dict.get?_setDefault]
    split
    next heq => rw [← heq, hkept, Option.getD_some]
    next => exact hkept
  exact @Runs.foldl_invariant _ _
    (fun owners : Dict String String => owners.get? name = some userId) _ _ _ howner hstep

structure ReceiptCodec extends Codec Node where
  authAliases : String → Option Aliases
  authAliases_receipt : ∀ config status aliases,
    authAliases (receipt config status aliases) = some aliases

/-- The files, the owners in the history, the verdict on the pending publication, and what was
published. -/
structure World where
  disk : Disk Node
  owners : Dict String String
  verdict : Option Outcome := none
  committed : List Node := []

inductive Fate
  | proceed
  | fail (failure : Failure)
  | late

structure Choice where
  fate : Fate := .proceed
  socket : String := ""
  enabled : Bool := true
  status : Status := ⟨"", 0, ""⟩
  preview : Preview := ⟨⟨"", 0, ""⟩, "", true⟩
  order : List String := []

def Choice.answer {α : Type} (choice : Choice) (result : Except Failure α) : Except Failure α :=
  match choice.fate with
  | .fail failure => .error failure
  | _ => result

def visited (order ids : List String) : List String := if order.Perm ids then order else ids

namespace World

def write (change : World → World) (w : World) : Fate → Except Failure Unit × World
  | .proceed => (.ok (), change w)
  | .fail failure => (.error failure, w)
  | .late => (.error (.os "directory synchronization failed"), change w)

def readAliases (codec : ReceiptCodec) (w : World) : Except Failure Aliases :=
  match w.disk.current with
  | none => .ok Dict.empty
  | some file =>
    match codec.authAliases file.data with
    | some aliases => .ok aliases
    | none => .error (.config "runtime identity history is invalid")

def complete (w : World) : World :=
  { w with
    disk := w.disk.setJournal none
    verdict := none
    committed :=
      match w.verdict, w.disk.journal with
      | some .applied, some journal => journal.config :: w.committed
      | _, _ => w.committed }

end World

def respond (codec : ReceiptCodec) (process : Owner) (choice : Choice) :
    (op : Op Node) → World → Except Failure (Answer op) × World
  | .checkMode, w => (choice.answer (.ok choice.socket), w)
  | .enabled, w => (.ok choice.enabled, w)
  | .status, w | .apply _ _, w | .fence _, w => (choice.answer (.ok choice.status), w)
  | .preview _, w => (choice.answer (.ok choice.preview), w)
  | .capture file, w => (choice.answer (.ok (w.disk.read file)), w)
  | .restore file record, w =>
    w.write (fun w => { w with disk := w.disk.restore process file record }) choice.fate
  | .journalExists, w => (.ok w.disk.journal.isSome, w)
  | .readJournal, w =>
    match w.disk.journal with
    | some journal => (choice.answer (.ok journal), w)
    | none => (.error (.os "no such file"), w)
  | .writeJournal journal, w =>
    w.write (fun w => { w with
      disk := w.disk.setJournal (some journal), verdict := none }) choice.fate
  | .removeJournal, w =>
    match choice.fate with
    | .fail failure => (.error failure, w)
    | _ => (.ok (), w.complete)
  | .readAliases, w => (choice.answer (w.readAliases codec), w)
  | .mergeAliases config aliases, w =>
    (choice.answer (mergeAliases w.owners config aliases
      (visited choice.order (discoverUserIds config.inbounds config.users))), w)
  | .bindOwners values, w =>
    match bindOwners w.owners values with
    | .error failure => (.error failure, w)
    | .ok bound => w.write (fun w => { w with owners := bound }) choice.fate
  | .versions _, w => (choice.answer (.ok ()), w)
  | .settle _ verdict, w => (.ok (), { w with verdict := some verdict.outcome })

/-- The agent holds the configuration lock: nothing happens between its operations. -/
def ledger (codec : ReceiptCodec) (process : Owner) : System World (@Answer Node) Failure where
  Choice := Choice
  Event := Empty
  respond := respond codec process
  env := nofun

def adoptReceipt (codec : ReceiptCodec) (config : Node) (receipt : Status) : Agent Node Unit := do
  let previous ← ask .readAliases
  ask (.bindOwners previous)
  let aliases ← ask (.mergeAliases config previous)
  ask (.bindOwners aliases)
  ask (.versions Dict.empty)
  ask (.restore .current (some ⟨codec.receipt config receipt aliases, 0o600, none⟩))

def verifyCurrent (config : Node) : Agent Node Status := do
  let _ ← ask .checkMode
  let preview ← ask (.preview config)
  if preview.runtime.contentHash ≠ preview.contentHash then
    raise (.config "runtime configuration drift; reconciliation required")
  else pure preview.runtime

/-- `authenticated`: the managed SOCKS inbound of the configuration on the disk has
`require_auth`. -/
def initializeLocked (codec : ReceiptCodec) (config : Node) (authenticated : Bool) :
    Agent Node Unit := do
  let _ ← recoverLocked codec.toCodec
  let enabled ← ask .enabled
  if enabled = false then pure ()
  else if authenticated = false then
    raise
      (.config "set require_auth:true on the managed SOCKS inbound before enabling runtime mode")
  else
    let receipt ← verifyCurrent config
    adoptReceipt codec config receipt

/-- `apply_disk`: the configuration on the disk is published, or taken over if the core runs it. -/
def applyDisk (codec : ReceiptCodec) (commit : Commit Node) : Agent Node Status := do
  let pending ← ask .journalExists
  if pending then raise (.recoveryRequired
    "runtime recovery required; transaction journal retained")
  else
    let observed ← ask (.preview commit.config)
    if observed.contentHash = observed.runtime.contentHash then
      adoptReceipt codec commit.config observed.runtime
      pure observed.runtime
    else commitFiles codec.toCodec { commit with prepared := none }

inductive Task
  | publication (call : Call Node)
  | startup (config : Node) (authenticated : Bool)
  | applyDisk (commit : Commit Node)

def Task.program (codec : ReceiptCodec) : Task → Agent Node Unit
  | .publication call => call.program codec.toCodec
  | .startup config authenticated => initializeLocked codec config authenticated
  | .applyDisk commit => do
    let _ ← AliasLedger.applyDisk codec commit
    pure ()

end NodeManager.AliasLedger
