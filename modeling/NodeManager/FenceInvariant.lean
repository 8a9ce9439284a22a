import NodeManager.PublicationWorld

namespace NodeManager.FenceInvariant

open RuntimeCore Publication PublicationWorld

variable {Config Content : Type} {schema : Schema Config Content} {core core' : Core Content}
  {w : World Config Content} {request : Request Config}

/-- The request cannot change the content: its revision is past, or its content is there. -/
def Inert (schema : Schema Config Content) (core : Core Content) : Request Config → Prop
  | .fence _ => True
  | .put config expected => expected.revision < core.revision ∨
      ∃ after, schema.configObject config = some after ∧
      schema.fingerprint after = schema.fingerprint core.content

def Later (schema : Schema Config Content) (core core' : Core Content) : Prop :=
  core.revision < core'.revision ∨
    (core.revision = core'.revision ∧
      schema.fingerprint core'.content = schema.fingerprint core.content)

/-- A revision that the core has or had is expected, and the target is the configuration. -/
structure Sound (schema : Schema Config Content) (core : Core Content) (config : Config)
    (prepared : Prepared) : Prop where
  target : ∃ after, schema.configObject config = some after ∧
    schema.fingerprint after = prepared.targetHash
  reached : prepared.expected.revision ≤ core.revision
  bounded : prepared.expected.revision < revisionBound

def Settled (schema : Schema Config Content) (core : Core Content)
    (entry : Settlement Content) : Prop :=
  match entry.verdict.outcome with
  | .unchanged => entry.prepared.expected.revision < core.revision
  | .applied => schema.fingerprint entry.content = entry.prepared.targetHash

structure Coherent (schema : Schema Config Content) (w : World Config Content) : Prop where
  bounded : w.core.revision ≤ revisionBound
  flight : ∀ request ∈ w.flight, request.expected.revision ≤ w.core.revision ∧
    request.expected.revision < revisionBound
  pending : ∀ request ∈ w.flight, Inert schema w.core request ∨
    ∃ journal, w.disk.journal = some journal ∧
    request = .put journal.config journal.prepared.expected
  journal : ∀ journal, w.disk.journal = some journal →
    Sound schema w.core journal.config journal.prepared
  settled : ∀ entry ∈ w.settled, Settled schema w.core entry

theorem Later.le (hl : Later schema core core') : core.revision ≤ core'.revision := by
  rcases hl with hlt | ⟨heq, _⟩
  · exact Nat.le_of_lt hlt
  · exact Nat.le_of_eq heq

theorem Later.refl : Later schema core core := Or.inr ⟨rfl, rfl⟩

theorem Inert.later (hi : Inert schema core request) (hl : Later schema core core')
    (hr : request.expected.revision ≤ core.revision) : Inert schema core' request := by
  cases request with
  | fence expected => trivial
  | put config expected =>
    rcases hi with hpast | ⟨after, hafter, hsame⟩
    · exact Or.inl (Nat.lt_of_lt_of_le hpast hl.le)
    rcases hl with hlt | ⟨_, heq⟩
    · exact Or.inl (Nat.lt_of_le_of_lt hr hlt)
    · exact Or.inr ⟨after, hafter, hsame.trans heq.symm⟩

theorem Sound.later {config : Config} {prepared : Prepared} (hs : Sound schema core config prepared)
    (hl : Later schema core core') : Sound schema core' config prepared :=
  ⟨hs.target, Nat.le_trans hs.reached hl.le, hs.bounded⟩

theorem Settled.later {entry : Settlement Content} (hs : Settled schema core entry)
    (hl : Later schema core core') :
    Settled schema core' entry := by
  unfold Settled at hs ⊢
  split
  next hu =>
    rw [hu] at hs
    exact Nat.lt_of_lt_of_le hs hl.le
  next ha =>
    rw [ha] at hs
    exact hs

theorem Coherent.later (hw : Coherent schema w) {flight : List (Request Config)}
    (hl : Later schema w.core core') (hbounded : core'.revision ≤ revisionBound)
    (hflight : ∀ request ∈ flight, request ∈ w.flight) :
    Coherent schema { w with core := core', flight := flight } := by
  refine ⟨hbounded, ?_, ?_, ?_, ?_⟩
  · intro request hr
    obtain ⟨hle, hlt⟩ := hw.flight request (hflight request hr)
    exact ⟨Nat.le_trans hle hl.le, hlt⟩
  · intro request hr
    rcases hw.pending request (hflight request hr) with hi | hp
    · exact Or.inl (hi.later hl (hw.flight request (hflight request hr)).1)
    · exact Or.inr hp
  · intro journal hj
    exact (hw.journal journal hj).later hl
  · intro entry he
    exact (hw.settled entry he).later hl

theorem later_deliver {request : Request Config} (hbounded : core.revision ≤ revisionBound)
    (hr : request.expected.revision < revisionBound) (accepted : Bool) :
    Later schema core (deliver schema accepted request core) ∧
      (deliver schema accepted request core).revision ≤ revisionBound := by
  rcases deliver_cases schema accepted request core with heq | ⟨hrevision, content, heq, _⟩
  · rw [heq]
    exact ⟨Later.refl, hbounded⟩
  rw [heq]
  have hnext := nextRevision_eq hbounded
  refine ⟨Or.inl ?_, ?_⟩
  · change core.revision < nextRevision core.revision
    omega
  · change nextRevision core.revision ≤ revisionBound
    omega

theorem content_deliver_of_inert (hi : Inert schema core request) (accepted : Bool) :
    (deliver schema accepted request core).content = core.content := by
  rcases deliver_cases schema accepted request core with heq |
    ⟨hrevision, content, heq, hsame | ⟨config, expected, rfl, hafter, hne⟩⟩
  · rw [heq]
  · rw [heq]
    exact hsame
  rcases hi with hpast | ⟨after, hafter', heq'⟩
  · exact absurd hrevision (Nat.ne_of_lt hpast)
  · rw [hafter, Option.some_inj] at hafter'
    exact absurd (hafter' ▸ heq') hne

def AllInert (schema : Schema Config Content) (w : World Config Content) : Prop :=
  ∀ request ∈ w.flight, Inert schema w.core request

theorem later_occur (hw : Coherent schema w) (event : Event) :
    Later schema w.core (event.occur schema w).core ∧
    (event.occur schema w).core.revision ≤ revisionBound ∧
      (∀ request ∈ (event.occur schema w).flight, request ∈ w.flight) ∧
      (event.occur schema w).disk = w.disk ∧ (event.occur schema w).settled = w.settled := by
  rcases occur_cases schema event w with ⟨request, hr, accepted, flight, hsub, heq⟩ |
    ⟨closed, socket, heq⟩
  · rw [heq]
    obtain ⟨hl, hbounded⟩ := @later_deliver _ _ schema w.core request hw.bounded
      (hw.flight request hr).2 accepted
    exact ⟨hl, hbounded, hsub, rfl, rfl⟩
  · rw [heq]
    exact ⟨Later.refl, hw.bounded, fun _ hr => hr, rfl, rfl⟩

theorem Coherent.occur (hw : Coherent schema w) (event : Event) :
    Coherent schema (event.occur schema w) := by
  obtain ⟨hl, hbounded, hsub, hdisk, hsettled⟩ := later_occur hw event
  have hnext := hw.later hl hbounded hsub
  refine ⟨hnext.bounded, hnext.flight, ?_, ?_, ?_⟩
  · rw [hdisk]
    exact hnext.pending
  · rw [hdisk]
    exact hnext.journal
  · rw [hsettled]
    exact hnext.settled

theorem AllInert.occur (hi : AllInert schema w) (hw : Coherent schema w) (event : Event) :
    AllInert schema (event.occur schema w) := by
  obtain ⟨hl, _, hsub, _, _⟩ := later_occur hw event
  intro request hr
  exact (hi request (hsub request hr)).later hl (hw.flight request (hsub request hr)).1

end NodeManager.FenceInvariant
