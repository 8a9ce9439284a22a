import NodeManager.PrefixCodes
import NodeManager.Revisions
import NodeManager.Runs

namespace NodeManager.RevisionRuns

open Dictionary JsonValues PrefixCodes Revisions

structure Payload where
  version : Option Json := none
  users : Option Json := none
  expiredUsers : Option Object := none
  runtimeUserVersions : Option (Dict String Nat) := none
  other : Object := []
  deriving DecidableEq

structure Request where
  config : Object
  registry : Option Payload
  signature : String
  revisionId : String
  allowUserDeletion : Bool := false

/-- What a node knows of itself: its digests and the checks that a request must pass. -/
structure Site extends Env where
  discover : Object → Registry → List String
  verifySignature : Object → Option Payload → String → Bool
  findNodeTargetMismatch : Object → Option Payload → Option String
  findPortConflicts : Object → List String

def validateRegistryPayload : Option Payload → Except String Registry
  | none => .ok { version := some (.num 1) }
  | some payload =>
    match payload.users with
    | none =>
      if payload.expiredUsers.isSome ∨ payload.runtimeUserVersions.isSome ∨ payload.other ≠ [] then
        .error "registry is missing the 'users' object"
      else .ok { version := some (payload.version.getD (.num 1)) }
    | some .null => .error "registry is missing the 'users' object"
    | some (.obj users) =>
      .ok ⟨payload.version, users, payload.expiredUsers, payload.runtimeUserVersions, payload.other⟩
    | some _ => .error "registry 'users' must be a JSON object"

inductive Mode
  | legacy
  | runtime
  deriving DecidableEq, Repr

structure Node where
  config : Option Object := none
  registry : Option Registry := none
  state : Option State := none
  current : Option Object := none
  lastGood : Option Object := none
  bundle : Option Bundle := none
  lastGoodBundle : Option Bundle := none
  deriving DecidableEq

def Node.readState (node : Node) : State := node.state.getD {}

def Node.readRegistry (node : Node) : Registry :=
  (node.registry.map (·.withDefaults)).getD Registry.empty

def Site.prune (site : Site) (config : Object) (registry : Registry) : Registry :=
  { registry with
    runtimeUserVersions :=
      registry.runtimeUserVersions.map (·.filterKeys (· ∈ site.discover config registry)) }

def Mode.read (mode : Mode) (registry : Registry) : Registry :=
  match mode with
  | .legacy => registry
  | .runtime => registry.withDefaults

def Site.write (site : Site) (mode : Mode) (config : Object) (registry : Registry) : Registry :=
  match mode with
  | .legacy => registry
  | .runtime => site.prune config registry

def Site.kept (site : Site) (mode : Mode) (node : Node) : Option Bundle :=
  match node.config, node.registry with
  | some config, some registry => some (site.previous node.readState config (mode.read registry))
  | _, _ => none

structure Reading where
  appliedAt : String := ""
  time : String := ""
  contentHash : String := ""
  verified : Bool := true
  legible : Bool := true

/-- The node as an operation reads it: `_read_state` takes a file that it cannot open or parse for
none. -/
def Node.seen (reading : Reading) (node : Node) : Node :=
  if reading.legible then node else { node with state := none }

def Site.nextState (site : Site) (mode : Mode) (target : Bundle) (action : String)
    (reading : Reading) (node : Node) :
    State :=
  let state := match site.kept mode node with
    | none => node.readState
    | some previous => node.readState.keep site.toEnv previous
  let state := match mode with
    | .legacy => state
    | .runtime =>
      { state with
        runtimeContentHash := some reading.contentHash, verificationScope :=
        some "files-and-runtime" }
  state.publish site.toEnv target action reading.appliedAt reading.time

def Site.committed (site : Site) (mode : Mode) (target : Bundle) (action : String)
    (reading : Reading) (node : Node) :
    Node where
  config := some target.config
  registry := some (site.write mode target.config target.registry)
  state := some (site.nextState mode target action reading node)
  current := some target.config
  lastGood := ((site.kept mode node).map (·.config)).or node.lastGood
  bundle := some target
  lastGoodBundle := (site.kept mode node).or node.lastGoodBundle

/-- A commit that raises leaves all files as before, or the target's, at once or when its journal is
recovered. -/
inductive Fate
  | success
  | restored (message : String)
  | unreported (message : String)
  deriving DecidableEq, Repr

structure Receipt where
  revisionId : Option String
  replayed : Bool
  state : State
  deriving DecidableEq

def Site.commit (site : Site) (mode : Mode) (target : Bundle) (action : String) (reading : Reading)
    (fate : Fate) (node : Node) : Except String Receipt × Node :=
  match fate with
  | .success =>
    (.ok ⟨target.revisionId, false, site.nextState mode target action reading (node.seen reading)⟩,
      site.committed mode target action reading (node.seen reading))
  | .restored message => (.error message, node)
  | .unreported message =>
    (.error message, site.committed mode target action reading (node.seen reading))

inductive Decision
  | answer (result : Except String Receipt)
  | commit (target : Bundle)
  deriving DecidableEq

def Site.replay (site : Site) (mode : Mode) (target : Bundle) (revisionId : String)
    (reading : Reading) (node : Node) :
    Except String Receipt :=
  match node.config, node.registry with
  | some config, some registry =>
    if node.readState.bundleHash ≠ some (site.digest target) then
      .error "revision content conflict or legacy receipt requires new revision"
    else if site.digest (site.bundle (some revisionId) config registry) ≠ site.digest target then
      .error "revision drift detected; cannot replay success"
    else if mode = .runtime ∧ !reading.verified then
      .error "runtime configuration drift; reconciliation required"
    else .ok ⟨some revisionId, true, node.readState⟩
  | _, _ => .error "FileNotFoundError"

def Site.decideTarget (site : Site) (mode : Mode) (request : Request) (registry : Registry)
    (reading : Reading) (node : Node) : Decision :=
  let target := site.bundle (some request.revisionId) request.config registry
  let state := node.readState
  let known := state.revisionDigests.get? request.revisionId
  if known.isSome ∧ known ≠ some (site.digest target) then
    .answer (.error "revision content conflict")
  else if known.isSome ∧ state.currentRevisionId ≠ some request.revisionId then
    .answer (.error "stale revision refused; use explicit rollback")
  else if state.currentRevisionId = some request.revisionId then
    .answer (site.replay mode target request.revisionId reading node)
  else
    let users := site.discover (node.config.getD []) node.readRegistry
    if users.any (· ∉ site.discover request.config registry) ∧ !request.allowUserDeletion then
      .answer
        (.error "revision would remove existing users; set allowUserDeletion=true to override")
    else .commit target

def Site.decideApply (site : Site) (mode : Mode) (request : Request) (reading : Reading)
    (node : Node) : Decision :=
  if request.revisionId = "" then .answer (.error "revision_id is required")
  else if !site.verifySignature request.config request.registry request.signature then
    .answer (.error "revision signature verification failed")
  else
    match validateRegistryPayload request.registry with
    | .error error => .answer (.error ("registry-invalid: " ++ error))
    | .ok registry =>
      match site.findNodeTargetMismatch request.config request.registry with
      | some problem => .answer (.error ("node target mismatch: " ++ problem))
      | none =>
        match site.findPortConflicts request.config with
        | [] => site.decideTarget mode request registry reading node
        | conflicts => .answer (.error ("port conflict: " ++ "; ".intercalate conflicts))

def Site.applyDesiredRevision (site : Site) (mode : Mode) (request : Request) (reading : Reading)
    (fate : Fate) (node : Node) : Except String Receipt × Node :=
  match site.decideApply mode request reading (node.seen reading) with
  | .answer result => (result, node)
  | .commit target => site.commit mode target "applied" reading fate node

def Site.decideRollback (site : Site) (node : Node) : Decision :=
  match node.lastGoodBundle with
  | none =>
    .answer
      (.error "no complete last_known_good bundle available; legacy config-only rollback refused")
  | some target =>
    if target.nodeId ≠ site.nodeId ∨ some (site.digest target) ≠ node.readState.lastGoodHash then
      .answer (.error "rollback failed; snapshot mismatch")
    else .commit target

def Site.rollbackToLastKnownGood (site : Site) (mode : Mode) (reading : Reading) (fate : Fate)
    (node : Node) :
    Except String Receipt × Node :=
  match site.decideRollback (node.seen reading) with
  | .answer result => (result, node)
  | .commit target =>
    let (result, after) := site.commit mode target "rolled-back" reading fate node
    (result.mapError ("rollback failed; " ++ ·), after)

/-- What happens to a node. An ordinary mutation writes any configuration and any registry. -/
inductive Step
  | apply (mode : Mode) (request : Request) (reading : Reading) (fate : Fate)
  | rollback (mode : Mode) (reading : Reading) (fate : Fate)
  | mutate (config : Object) (registry : Registry)

def Site.next (site : Site) : Step → Node → Option (Except String Receipt) × Node
  | .apply mode request reading fate, node =>
    let (result, after) := site.applyDesiredRevision mode request reading fate node
    (some result, after)
  | .rollback mode reading fate, node =>
    let (result, after) := site.rollbackToLastKnownGood mode reading fate node
    (some result, after)
  | .mutate config registry, node =>
    (none, { node with config := some config, registry := some registry })

def Site.after (site : Site) (step : Step) (node : Node) : Node := (site.next step node).2

def Node.start (config : Option Object) (registry : Option Registry) : Node :=
  { config := config, registry := registry }

def Node.bound (node : Node) (revisionId : String) : Option String :=
  node.readState.revisionDigests.get? revisionId

def Fate.takesEffect : Fate → Bool
  | .restored _ => false
  | _ => true

def Step.seen : Step → Node → Node
  | .apply _ _ reading _, node => node.seen reading
  | .rollback _ reading _, node => node.seen reading
  | .mutate _ _, node => node

def Site.committing (site : Site) : Step → Node → Option (Mode × Bundle)
  | .apply mode request reading fate, node =>
    match site.decideApply mode request reading (node.seen reading) with
    | .commit target => if fate.takesEffect then some (mode, target) else none
    | .answer _ => none
  | .rollback mode reading fate, node =>
    match site.decideRollback (node.seen reading) with
    | .commit target => if fate.takesEffect then some (mode, target) else none
    | .answer _ => none
  | .mutate _ _, _ => none

variable {site : Site} {mode : Mode} {node : Node} {target : Bundle} {step : Step}
  {request : Request} {reading : Reading}

@[simp] theorem config_seen (step : Step) (node : Node) :
    (step.seen node).config = node.config := by
  cases step <;> simp only [Step.seen, Node.seen] <;> split <;> rfl

@[simp] theorem registry_seen (step : Step) (node : Node) :
    (step.seen node).registry = node.registry := by
  cases step <;> simp only [Step.seen, Node.seen] <;> split <;> rfl

@[simp] theorem lastGoodBundle_seen (step : Step) (node : Node) :
    (step.seen node).lastGoodBundle = node.lastGoodBundle := by
  cases step <;> simp only [Step.seen, Node.seen] <;> split <;> rfl

theorem commit_cases (site : Site) (mode : Mode) (target : Bundle) (action : String)
    (reading : Reading) (fate : Fate) (node : Node) :
    (fate.takesEffect = false ∧ ∃ message,
      site.commit mode target action reading fate node = (.error message, node)) ∨
      (fate.takesEffect = true ∧ ∃ result,
        site.commit mode target action reading fate node =
            (result, site.committed mode target action reading (node.seen reading)) ∧
          ∀ receipt, result = .ok receipt → receipt.revisionId = target.revisionId ∧
          receipt.replayed = false) := by
  cases fate with
  | success =>
    refine .inr ⟨rfl, _, rfl, ?_⟩
    intro receipt h
    rw [← Except.ok.inj h]
    exact ⟨rfl, rfl⟩
  | restored message => exact .inl ⟨rfl, message, rfl⟩
  | unreported message =>
    refine .inr ⟨rfl, _, rfl, ?_⟩
    intro receipt h
    cases h

theorem mapError_ok {α : Type} {f : String → String} {result : Except String α} {a : α}
    (h : result.mapError f = .ok a) : result = .ok a := by
  cases result with
  | error message => cases h
  | ok b => exact h

theorem decideRollback_answer {result : Except String Receipt}
    (h : site.decideRollback node = .answer result) :
    ∃ message, result = .error message := by
  simp only [Site.decideRollback] at h
  split at h
  · exact ⟨_, (Decision.answer.inj h).symm⟩
  split at h
  · exact ⟨_, (Decision.answer.inj h).symm⟩
  · cases h

theorem decideRollback_commit (h : site.decideRollback node = .commit target) :
    node.lastGoodBundle = some target := by
  simp only [Site.decideRollback] at h
  split at h
  · cases h
  next found hfound =>
    split at h
    · cases h
    · rw [hfound, Decision.commit.inj h]

theorem seen_of_decideRollback (h : site.decideRollback (node.seen reading) = .commit target) :
    node.seen reading = node := by
  unfold Node.seen at h ⊢
  split
  · rfl
  next hlegible =>
    simp only [Site.decideRollback, if_neg hlegible] at h
    split at h
    · cases h
    · simp [Node.readState] at h

theorem next_cases (site : Site) (step : Step) (node : Node) :
    (∃ config registry, step = .mutate config registry) ∨
      (site.committing step node = none ∧ site.after step node = node ∧
        ∀ receipt, (site.next step node).1 = some (.ok receipt) → ∃ mode request reading fate,
          step = .apply mode request reading fate ∧
            site.decideApply mode request reading (node.seen reading) = .answer (.ok receipt)) ∨
      ∃ mode target action reading, site.committing step node = some (mode, target) ∧
        site.after step node = site.committed mode target action reading (step.seen node) ∧
        ∀ receipt, (site.next step node).1 = some (.ok receipt) →
          receipt.revisionId = target.revisionId ∧ receipt.replayed = false := by
  cases step with
  | mutate config registry => exact .inl ⟨config, registry, rfl⟩
  | apply mode request reading fate =>
    simp only [Site.after, Site.next, Site.applyDesiredRevision, Site.committing]
    cases hd : site.decideApply mode request reading (node.seen reading) with
    | answer result =>
      refine .inr (.inl ⟨rfl, rfl, ?_⟩)
      intro receipt h
      exact ⟨mode, request, reading, fate, rfl, by rw [hd, ← Option.some.inj h]⟩
    | commit target =>
      obtain ⟨hfate, message, h⟩ | ⟨hfate, result, h, hresult⟩ :=
        commit_cases site mode target "applied" reading fate node
      · simp only [h, hfate]
        exact .inr (.inl (by simp))
      simp only [h, hfate]
      refine .inr (.inr ⟨mode, target, "applied", reading, by simp, rfl, ?_⟩)
      intro receipt hreceipt
      exact hresult receipt (Option.some.inj hreceipt)
  | rollback mode reading fate =>
    simp only [Site.after, Site.next, Site.rollbackToLastKnownGood, Site.committing]
    cases hd : site.decideRollback (node.seen reading) with
    | answer result =>
      obtain ⟨message, rfl⟩ := decideRollback_answer hd
      exact .inr (.inl ⟨rfl, rfl, by simp⟩)
    | commit target =>
      obtain ⟨hfate, message, h⟩ | ⟨hfate, result, h, hresult⟩ :=
        commit_cases site mode target "rolled-back" reading fate node
      · simp only [h, hfate]
        exact .inr (.inl (by simp [Except.mapError]))
      simp only [h, hfate]
      refine .inr (.inr ⟨mode, target, "rolled-back", reading, by simp, rfl, ?_⟩)
      intro receipt hreceipt
      exact hresult receipt (mapError_ok (Option.some.inj hreceipt))

section

variable {fate : Fate} {mode' : Mode}

theorem decided_commit {decision : Decision} (h : (match decision with
      | .commit target => if fate.takesEffect then some (mode, target) else none
      | .answer _ => none) = some (mode', target)) : mode' = mode ∧ decision = .commit target := by
  cases decision with
  | answer result => cases h
  | commit found =>
    dsimp only at h
    split at h
    · cases h
      exact ⟨rfl, rfl⟩
    · cases h

theorem committing_apply (h : site.committing (.apply mode request reading fate) node =
    some (mode', target)) :
    mode' = mode ∧ site.decideApply mode request reading (node.seen reading) = .commit target :=
  decided_commit h

theorem committing_rollback (h : site.committing (.rollback mode reading fate) node =
    some (mode', target)) :
    mode' = mode ∧ site.decideRollback (node.seen reading) = .commit target :=
  decided_commit h

end

theorem kept_none (h : site.kept mode node = none) : node.config = none ∨ node.registry = none := by
  simp only [Site.kept] at h
  split at h
  · cases h
  next hnone =>
    cases hconfig : node.config with
    | none => exact .inl rfl
    | some config =>
      cases hregistry : node.registry with
      | none => exact .inr rfl
      | some registry => exact absurd hregistry (hnone config registry hconfig)

def Node.Live (node : Node) : Prop :=
  node.lastGoodBundle ≠ none → node.config ≠ none ∧ node.registry ≠ none

theorem live_start (config : Option Object) (registry : Option Registry) :
    (Node.start config registry).Live :=
  fun h => absurd rfl h

theorem live_after (hlive : node.Live) : (site.after step node).Live := by
  obtain ⟨config, registry, rfl⟩ | ⟨-, hafter, -⟩ | ⟨mode, target, action, reading, -, hafter, -⟩ :=
    next_cases site step node
  · exact fun _ => ⟨Option.some_ne_none _, Option.some_ne_none _⟩
  · rw [hafter]
    exact hlive
  · rw [hafter]
    exact fun _ => ⟨Option.some_ne_none _, Option.some_ne_none _⟩

theorem decideApply_cases (site : Site) (mode : Mode) (request : Request) (reading : Reading)
    (node : Node) :
    (∃ message, site.decideApply mode request reading node = .answer (.error message)) ∨
      ∃ registry, validateRegistryPayload request.registry = .ok registry ∧
        site.decideApply mode request reading node =
        site.decideTarget mode request registry reading node := by
  simp only [Site.decideApply]
  split
  · exact .inl ⟨_, rfl⟩
  split
  · exact .inl ⟨_, rfl⟩
  split
  · exact .inl ⟨_, rfl⟩
  next registry hregistry =>
    split
    · exact .inl ⟨_, rfl⟩
    split
    · exact .inr ⟨registry, hregistry, rfl⟩
    · exact .inl ⟨_, rfl⟩

theorem decideTarget_commit {registry : Registry}
    (h : site.decideTarget mode request registry reading node = .commit target) :
    target = site.bundle (some request.revisionId) request.config registry ∧
    node.bound request.revisionId = none ∧
      node.readState.currentRevisionId ≠ some request.revisionId := by
  simp only [Site.decideTarget] at h
  split at h
  · cases h
  split at h
  · cases h
  next hstale =>
    split at h
    · cases h
    next hcurrent =>
      split at h
      · cases h
      · refine ⟨(Decision.commit.inj h).symm, ?_, hcurrent⟩
        simpa [hcurrent, Node.bound] using hstale

theorem decideApply_commit (h : site.decideApply mode request reading node = .commit target) :
    (∃ registry, validateRegistryPayload request.registry = .ok registry ∧
      target = site.bundle (some request.revisionId) request.config registry) ∧
      node.bound request.revisionId = none ∧
      node.readState.currentRevisionId ≠ some request.revisionId := by
  obtain ⟨message, hanswer⟩ | ⟨registry, hregistry, hdecide⟩ :=
    decideApply_cases site mode request reading node
  · cases hanswer.symm.trans h
  rw [hdecide] at h
  obtain ⟨rfl, hfree⟩ := decideTarget_commit h
  exact ⟨⟨registry, hregistry, rfl⟩, hfree⟩

theorem decideApply_ok {receipt : Receipt}
    (h : site.decideApply mode request reading node = .answer (.ok receipt)) :
    ∃ config live registry, node.config = some config ∧ node.registry = some live ∧
      validateRegistryPayload request.registry = .ok registry ∧
      receipt.revisionId = some request.revisionId ∧
      receipt.replayed = true ∧ node.readState.currentRevisionId = some request.revisionId ∧
      node.readState.bundleHash = some
      (site.digest (site.bundle (some request.revisionId) request.config registry)) ∧
      site.digest (site.bundle (some request.revisionId) config live) =
        site.digest (site.bundle (some request.revisionId) request.config registry) := by
  obtain ⟨message, hanswer⟩ | ⟨registry, hregistry, hdecide⟩ :=
    decideApply_cases site mode request reading node
  · cases hanswer.symm.trans h
  rw [hdecide] at h
  simp only [Site.decideTarget] at h
  split at h
  · cases h
  split at h
  · cases h
  split at h
  next hcurrent =>
    simp only [Site.replay] at h
    split at h
    next config live hconfig hlive =>
      split at h
      · cases h
      next hbundle =>
        split at h
        · cases h
        next hsame =>
          split at h
          · cases h
          rw [← Except.ok.inj (Decision.answer.inj h)]
          exact ⟨config, live, registry, hconfig, hlive, hregistry, rfl, rfl, hcurrent,
            not_not.mp hbundle, not_not.mp hsame⟩
    · cases h
  · split at h <;> cases h

def objectCode : Code Object := (Code.string.prod Code.json).list

def registryCode : Code Registry :=
  (Code.json.option.prod (objectCode.prod
    (objectCode.option.prod (Code.nat.dict.option.prod objectCode)))).map (fun r => (r.version,
    r.users, r.expiredUsers, r.runtimeUserVersions, r.other)) (fun r r' h => by
      cases r
      cases r'
      simpa using h)

def bundleCode : Code Bundle :=
  (Code.nat.prod (Code.string.prod (Code.string.option.prod (objectCode.prod registryCode)))).map
    (fun b => (b.version, b.nodeId, b.revisionId, b.config, b.registry))
    (fun b b' h => by
      cases b
      cases b'
      simpa using h)

def plainSite : Site where
  nodeId := "node"
  digest := bundleCode.text
  digestConfig := objectCode.text
  digestRegistry := registryCode.text
  discover _ registry := registry.users.map Prod.fst
  verifySignature _ _ _ := true
  findNodeTargetMismatch _ _ := none
  findPortConflicts _ := []

end NodeManager.RevisionRuns
