import NodeManager.CrashPrograms

namespace NodeManager.Hosting

open Programs RuntimeCore Publication PublicationWorld FenceInvariant FencePrograms

variable {Config Content : Type}

structure Host (Config : Type) where
  path : String
  load : String → Option Config

def diskContent (schema : Schema Config Content) (host : Host Config) (disk : Disk Config) :
    Option Content :=
  (disk.files host.path).bind (fun file => (host.load file.data).bind schema.configObject)

/-- A removal of the journal: the status behind the last verdict, the running instance, and the hash
of the file it was started from. -/
structure Removal where
  proved : Option Status
  running : String
  booted : Option String
  deriving DecidableEq, Repr

/-- The instance that proved the outcome is running, or its successor was started from the file of
the outcome. -/
def Removal.sound (removal : Removal) : Bool :=
  removal.proved.any (fun receipt =>
    receipt.instanceId = removal.running || removal.booted = some receipt.contentHash)

/-- The world, the instances that are gone, what the running one was started from (unless it is the
first), and the removals of the journal. -/
structure Hosted (Config Content : Type) where
  world : World Config Content
  retired : List String
  booted : Option String
  removals : List Removal

/-- A new process of the core under a fresh instance id, started from the config file if this is
usable. -/
def Hosted.restart (schema : Schema Config Content) (host : Host Config) (instanceId : String)
    (h : Hosted Config Content) : Hosted Config Content :=
  match diskContent schema host h.world.disk with
  | none => h
  | some content =>
    if instanceId = h.world.core.instanceId ∨ instanceId ∈ h.retired then h
    else
      { h with
        world := { h.world with
          core := { instanceId := instanceId, revision := 0, content := content } }
        retired := h.world.core.instanceId :: h.retired
        booted := some (schema.fingerprint content) }

def Hosted.removal (h : Hosted Config Content) : Removal :=
  ⟨h.world.settled.head?.map (·.verdict.receipt), h.world.core.instanceId, h.booted⟩

def Hosted.removalsAfter (h : Hosted Config Content) : Op Config → Choice → List Removal
  | .removeJournal, .fail _ => h.removals
  | .removeJournal, _ => h.removal :: h.removals
  | _, _ => h.removals

/-- The agent and a core that may be restarted at any time from the config file. -/
def hosting (schema : Schema Config Content) (process : Owner) (host : Host Config) :
    System (Hosted Config Content) (@Answer Config) Failure where
  Choice := Choice
  Event := Event ⊕ String
  respond choice op h :=
    ((respond schema process choice op h.world).1,
      { h with
        world := (respond schema process choice op h.world).2, removals :=
        h.removalsAfter op choice })
  env
    | .inl event, h => { h with world := event.occur schema h.world }
    | .inr instanceId, h => h.restart schema host instanceId

variable {schema : Schema Config Content} {process : Owner} {host : Host Config}
  {h h' : Hosted Config Content} {accepted : Bool} {request : Request Config} {core : Core Content}

structure Known (h : Hosted Config Content) (expected : Status) : Prop where
  named : expected.instanceId ≠ ""
  bounded : expected.revision < revisionBound
  reached : expected.instanceId ∈ h.retired ∨
    (expected.instanceId = h.world.core.instanceId ∧ expected.revision ≤ h.world.core.revision)

def Harmless (schema : Schema Config Content) (h : Hosted Config Content)
    (request : Request Config) : Prop :=
  request.expected.instanceId ∈ h.retired ∨ Inert schema h.world.core request

structure Sane (h : Hosted Config Content) : Prop where
  bounded : h.world.core.revision ≤ revisionBound
  live : h.world.core.instanceId ∉ h.retired
  flight : ∀ request ∈ h.world.flight, Known h request.expected

def Onward (schema : Schema Config Content) (h h' : Hosted Config Content) : Prop :=
  (h'.retired = h.retired ∧ h'.world.core.instanceId = h.world.core.instanceId ∧
    Later schema h.world.core h'.world.core) ∨
  h'.retired = h.world.core.instanceId :: h.retired

theorem instanceId_deliver (accepted : Bool) (request : Request Config) (core : Core Content) :
    (deliver schema accepted request core).instanceId = core.instanceId := by
  rcases deliver_cases schema accepted request core with heq | ⟨_, content, heq, _⟩
  · rw [heq]
  · rw [heq]

theorem deliver_of_foreign (hnamed : request.expected.instanceId ≠ "")
    (hne : request.expected.instanceId ≠ core.instanceId) :
    deliver schema accepted request core = core := by
  have hrefused : ∃ refusal, request.perform schema accepted core = .error refusal := by
    cases request with
    | put config expected =>
      rw [Request.perform, reloadUsers,
        if_pos (show expected.instanceId ≠ "" ∧
          expected.instanceId ≠ core.instanceId from ⟨hnamed, hne⟩)]
      split
      · exact ⟨_, rfl⟩
      · exact ⟨_, rfl⟩
    | fence expected =>
      rw [Request.perform, fenceUserRuntime,
        if_pos (show expected.instanceId ≠ core.instanceId ∨
          expected.revision ≠ core.revision from Or.inl hne)]
      split
      · exact ⟨_, rfl⟩
      · exact ⟨_, rfl⟩
  obtain ⟨refusal, hrefused⟩ := hrefused
  rw [deliver, hrefused]
  rfl

theorem Known.onward {expected : Status} (hk : Known h expected) (ho : Onward schema h h') :
    Known h' expected := by
  refine ⟨hk.named, hk.bounded, ?_⟩
  rcases ho with ⟨hretired, hinstance, hl⟩ | hretired
  · rw [hretired, hinstance]
    rcases hk.reached with hgone | ⟨hsame, hle⟩
    · exact Or.inl hgone
    · exact Or.inr ⟨hsame, Nat.le_trans hle hl.le⟩
  · rw [hretired]
    rcases hk.reached with hgone | ⟨hsame, _⟩
    · exact Or.inl (List.mem_cons_of_mem _ hgone)
    · exact Or.inl (hsame ▸ List.mem_cons_self)

theorem Harmless.onward {request : Request Config} (hh : Harmless schema h request)
    (hk : Known h request.expected) (ho : Onward schema h h') : Harmless schema h' request := by
  rcases hk.reached with hgone | ⟨hsame, hle⟩
  · rcases ho with ⟨hretired, _, _⟩ | hretired
    · exact Or.inl (hretired ▸ hgone)
    · exact Or.inl (hretired ▸ List.mem_cons_of_mem _ hgone)
  rcases ho with ⟨hretired, _, hl⟩ | hretired
  · rcases hh with hgone | hi
    · exact Or.inl (hretired ▸ hgone)
    · exact Or.inr (hi.later hl hle)
  · exact Or.inl (by rw [hretired, hsame]; exact List.mem_cons_self)

def AllHarmless (schema : Schema Config Content) (h : Hosted Config Content) : Prop :=
  ∀ request ∈ h.world.flight, Harmless schema h request

structure Advanced (schema : Schema Config Content) (h h' : Hosted Config Content) : Prop where
  disk : h'.world.disk = h.world.disk
  settled : h'.world.settled = h.world.settled
  flight : ∀ request ∈ h'.world.flight, request ∈ h.world.flight
  onward : Onward schema h h'
  sane : Sane h'

structure Moved (schema : Schema Config Content) (host : Host Config)
    (h h' : Hosted Config Content) : Prop extends Advanced schema h h' where
  kept : h'.retired = h.retired → h'.booted = h.booted ∧
    (AllHarmless schema h → h'.world.core.content = h.world.core.content)
  started : h'.retired ≠ h.retired → h'.booted = some (schema.fingerprint h'.world.core.content) ∧
    diskContent schema host h.world.disk = some h'.world.core.content

theorem content_deliver_of_harmless (hs : Sane h) (hr : request ∈ h.world.flight)
    (hh : Harmless schema h request) (accepted : Bool) :
    (deliver schema accepted request h.world.core).content = h.world.core.content := by
  rcases hh with hgone | hi
  · have hne : request.expected.instanceId ≠ h.world.core.instanceId :=
      fun heq => hs.live (heq ▸ hgone)
    rw [deliver_of_foreign (hs.flight request hr).named hne]
  · exact content_deliver_of_inert hi accepted

theorem Sane.occur (hs : Sane h) (event : Event) :
    Moved schema host h { h with world := event.occur schema h.world } := by
  rcases occur_cases schema event h.world with ⟨request, hr, accepted, flight, hsub, heq⟩ |
    ⟨closed, socket, heq⟩
  · rw [heq]
    obtain ⟨hl, hbounded⟩ := @later_deliver _ _ schema h.world.core request hs.bounded
      (hs.flight request hr).bounded accepted
    have hinstance := @instanceId_deliver _ _ schema accepted request h.world.core
    have honward : Onward schema h { h with world :=
        { h.world with core := deliver schema accepted request h.world.core, flight := flight } } :=
      Or.inl ⟨rfl, hinstance, hl⟩
    refine ⟨⟨rfl, rfl, hsub, honward, ⟨hbounded, ?_, ?_⟩⟩, ?_, fun hne => absurd rfl hne⟩
    · rw [hinstance]
      exact hs.live
    · exact fun other ho => (hs.flight other (hsub other ho)).onward honward
    · exact fun _ => ⟨rfl, fun hall => content_deliver_of_harmless hs hr (hall request hr) accepted⟩
  · rw [heq]
    have honward : Onward schema h { h with world :=
        { h.world with core := { h.world.core with closed := closed }, socket := socket } } :=
      Or.inl ⟨rfl, rfl, Later.refl⟩
    exact ⟨⟨rfl, rfl, fun _ hr => hr, honward,
      ⟨hs.bounded, hs.live, fun other ho => (hs.flight other ho).onward honward⟩⟩, fun _ => ⟨rfl,
      fun _ => rfl⟩, fun hne => absurd rfl hne⟩

theorem Sane.unmoved (hs : Sane h) : Moved schema host h h :=
  ⟨⟨rfl, rfl, fun _ hr => hr, Or.inl ⟨rfl, rfl, Later.refl⟩, hs⟩, fun _ => ⟨rfl, fun _ => rfl⟩,
    fun hne => absurd rfl hne⟩

theorem Sane.restart (hs : Sane h) (instanceId : String) :
    Moved schema host h (h.restart schema host instanceId) := by
  unfold Hosted.restart
  cases hcontent : diskContent schema host h.world.disk with
  | none => exact hs.unmoved
  | some content =>
    split_ifs with hused
    · exact hs.unmoved
    rw [not_or] at hused
    refine ⟨⟨rfl, rfl, fun _ hr => hr, Or.inr rfl, ⟨Nat.zero_le _, ?_, ?_⟩⟩, ?_,
      fun _ => ⟨rfl, hcontent⟩⟩
    · intro hmem
      rcases List.mem_cons.mp hmem with heq | hmem
      · exact hused.1 heq
      · exact hused.2 hmem
    · exact fun other ho => @Known.onward _ _ schema _ _ _ (hs.flight other ho) (Or.inr rfl)
    · exact fun heq => absurd heq (List.cons_ne_self _ _)

theorem Sane.env (hs : Sane h) (event : Event ⊕ String) :
    Moved schema host h ((hosting schema process host).env event h) := by
  cases event with
  | inl event => exact hs.occur event
  | inr instanceId => exact hs.restart instanceId

theorem Sane.performed (hs : Sane h) (hok : request.perform schema accepted h.world.core = .ok core)
    (hr : request.expected.revision < revisionBound) :
    Advanced schema h { h with world := { h.world with core := core } } := by
  have hcore : deliver schema accepted request h.world.core = core := by rw [deliver, hok]; rfl
  obtain ⟨hl, hbounded⟩ := @later_deliver _ _ schema h.world.core request hs.bounded hr accepted
  have hinstance := @instanceId_deliver _ _ schema accepted request h.world.core
  rw [hcore] at hl hbounded hinstance
  have honward : Onward schema h { h with world := { h.world with core := core } } :=
    Or.inl ⟨rfl, hinstance, hl⟩
  refine ⟨rfl, rfl, fun _ hr => hr, honward, hbounded, ?_, ?_⟩
  · rw [hinstance]
    exact hs.live
  · exact fun other ho => (hs.flight other ho).onward honward

theorem hosting_reads {op : Op Config} (hr : reads op = true) (choice : Choice)
    (h : Hosted Config Content) :
    ((hosting schema process host).respond choice op h).2 = h := by
  have hworld := @respond_of_reads _ _ schema process op hr choice h.world
  have hremovals : h.removalsAfter op choice = h.removals := by
    cases op with
    | removeJournal => cases hr
    | _ => rfl
  change Hosted.mk (respond schema process choice op h.world).2 h.retired h.booted
    (h.removalsAfter op choice) = h
  rw [hworld, hremovals]

end NodeManager.Hosting
