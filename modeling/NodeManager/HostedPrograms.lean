import NodeManager.Hosting

namespace NodeManager.HostedPrograms

open Programs RuntimeCore Publication PublicationWorld CrashInvariant Hosting
open FencePrograms (reads unlessFailed_ok validateStatus_ok instanceId_ne_empty_of_valid)
open CrashPrograms (Decided)

variable {Config Content : Type} {schema : Schema Config Content} {process : Owner}
  {host : Host Config} {journal : Journal Config} {h h' : Hosted Config Content}

/-- What is fixed for a publication: the content and the verdicts before it, and its
configuration. -/
structure Transaction (Config Content : Type) where
  previous : Content
  config : Config
  base : List (Settlement Content)

variable {t : Transaction Config Content} {verdict : Verdict} {P : Hosted Config Content → Prop}
  {status : Status}

structure Pending (schema : Schema Config Content) (t : Transaction Config Content)
    (journal : Journal Config) (h : Hosted Config Content) : Prop where
  sane : Sane h
  stored : h.world.disk.journal = some journal
  config : journal.config = t.config
  target : ∃ after, schema.configObject t.config = some after ∧
    schema.fingerprint after = journal.prepared.targetHash
  previous : schema.fingerprint t.previous = journal.prepared.previousHash
  expected : Known h journal.prepared.expected
  flight : ∀ request ∈ h.world.flight,
    Harmless schema h request ∨ request = .put journal.config journal.prepared.expected
  since : ∃ since, h.world.settled = since ++ t.base

/-- The journal was removed although the core was started from another config file since the
proof. -/
def Disturbed (h : Hosted Config Content) : Prop := ∃ removal ∈ h.removals, removal.sound = false

/-- What a status tells for good: while its instance runs, the content is the one it names, and a
later instance still has what it was started from. -/
structure Held (schema : Schema Config Content) (t : Transaction Config Content)
    (journal : Journal Config) (receipt : Status) (h : Hosted Config Content) : Prop where
  pending : Pending schema t journal h
  reached : receipt.instanceId ∈ h.retired ∨ receipt.instanceId = h.world.core.instanceId
  harmless : AllHarmless schema h
  same : receipt.instanceId = h.world.core.instanceId →
    schema.fingerprint h.world.core.content = receipt.contentHash
  other : receipt.instanceId ≠ h.world.core.instanceId →
    h.booted = some (schema.fingerprint h.world.core.content)

def Stands (schema : Schema Config Content) (t : Transaction Config Content) (outcome : Outcome)
    (content : Content) : Prop :=
  match outcome with
  | .applied => schema.configObject t.config = some content
  | .unchanged => content = t.previous

structure Resolved (schema : Schema Config Content) (t : Transaction Config Content)
    (journal : Journal Config) (verdict : Verdict) (h : Hosted Config Content) : Prop where
  held : Held schema t journal verdict.receipt h
  means : ∀ content, schema.fingerprint content = verdict.receipt.contentHash →
    Stands schema t verdict.outcome content
  decided : Decided t.base journal.prepared verdict h.world.settled

/-- No publication is pending, and the content is that of the file or that of the last outcome. -/
structure Closed (schema : Schema Config Content) (host : Host Config)
    (t : Transaction Config Content) (h : Hosted Config Content) : Prop where
  sane : Sane h
  journal : h.world.disk.journal = none
  harmless : AllHarmless schema h
  content : diskContent schema host h.world.disk = some h.world.core.content ∨
    ((TargetProved t.base h.world → schema.configObject t.config = some h.world.core.content) ∧
      (¬ TargetProved t.base h.world → h.world.core.content = t.previous))

def Invariant (schema : Schema Config Content) (host : Host Config) (t : Transaction Config Content)
    (h : Hosted Config Content) : Prop :=
  (∃ journal, Pending schema t journal h) ∨ (h.world.disk.journal = none ∧ Disturbed h) ∨
    Closed schema host t h

theorem AllHarmless.moved (hall : AllHarmless schema h) (hs : Sane h) (hm : Advanced schema h h') :
    AllHarmless schema h' := by
  intro request hr
  have hr' := hm.flight request hr
  exact (hall request hr').onward (hs.flight request hr') hm.onward

theorem Pending.moved (hp : Pending schema t journal h) (hm : Advanced schema h h') :
    Pending schema t journal h' := by
  refine ⟨hm.sane, hm.disk ▸ hp.stored, hp.config, hp.target, hp.previous,
    hp.expected.onward hm.onward, ?_, ?_⟩
  · intro request hr
    have hr' := hm.flight request hr
    rcases hp.flight request hr' with hh | heq
    · exact Or.inl (hh.onward (hp.sane.flight request hr') hm.onward)
    · exact Or.inr heq
  · rw [hm.settled]
    exact hp.since

theorem reached_moved {instanceId : String} (hm : Advanced schema h h')
    (hreached : instanceId ∈ h.retired ∨ instanceId = h.world.core.instanceId) :
    instanceId ∈ h'.retired ∨ instanceId = h'.world.core.instanceId := by
  rcases hm.onward with ⟨hretired, hinstance, _⟩ | hretired
  · rw [hretired, hinstance]
    exact hreached
  · rw [hretired]
    exact Or.inl (List.mem_cons.mpr hreached.symm)

theorem Held.moved {receipt : Status} (hh : Held schema t journal receipt h)
    (hm : Moved schema host h h') :
    Held schema t journal receipt h' := by
  have hpending := hh.pending.moved hm.toAdvanced
  have hreached := reached_moved hm.toAdvanced hh.reached
  have hharmless := AllHarmless.moved hh.harmless hh.pending.sane hm.toAdvanced
  by_cases hretired : h'.retired = h.retired
  · have hinstance : h'.world.core.instanceId = h.world.core.instanceId := by
      rcases hm.onward with ⟨_, hinstance, _⟩ | hnew
      · exact hinstance
      · exact absurd (hnew.symm.trans hretired) (List.cons_ne_self _ _)
    obtain ⟨hbooted, hkept⟩ := hm.kept hretired
    refine ⟨hpending, hreached, hharmless, ?_, ?_⟩
    · rw [hinstance, hkept hh.harmless]
      exact hh.same
    · rw [hinstance, hbooted, hkept hh.harmless]
      exact hh.other
  · have hgone : receipt.instanceId ∈ h'.retired := by
      rcases hm.onward with ⟨hsame, _, _⟩ | hnew
      · exact absurd hsame hretired
      · rw [hnew]
        exact List.mem_cons.mpr hh.reached.symm
    -- an instance that is gone does not come back
    have hne : receipt.instanceId ≠ h'.world.core.instanceId :=
      fun heq => hm.sane.live (heq ▸ hgone)
    exact ⟨hpending, hreached, hharmless, fun heq => absurd heq hne,
      fun _ => (hm.started hretired).1⟩

theorem Resolved.moved (hr : Resolved schema t journal verdict h) (hm : Moved schema host h h') :
    Resolved schema t journal verdict h' := ⟨hr.held.moved hm, hr.means, hm.settled ▸ hr.decided⟩

theorem Closed.moved (hc : Closed schema host t h) (hm : Moved schema host h h') :
    Closed schema host t h' := by
  refine ⟨hm.sane, hm.disk ▸ hc.journal, AllHarmless.moved hc.harmless hc.sane hm.toAdvanced, ?_⟩
  by_cases hretired : h'.retired = h.retired
  · rw [TargetProved, hm.settled, hm.disk, (hm.kept hretired).2 hc.harmless]
    exact hc.content
  · rw [hm.disk]
    exact Or.inl (hm.started hretired).2

theorem env_frame (event : Event ⊕ String) (h : Hosted Config Content) :
    ((hosting schema process host).env event h).world.disk = h.world.disk ∧
      ((hosting schema process host).env event h).world.settled = h.world.settled ∧
      ((hosting schema process host).env event h).removals = h.removals := by
  cases event with
  | inl event =>
    change (event.occur schema h.world).disk = _ ∧ (event.occur schema h.world).settled = _ ∧
      h.removals = _
    rcases occur_cases schema event h.world with ⟨_, _, _, _, _, heq⟩ | ⟨_, _, heq⟩
    · rw [heq]
      exact ⟨rfl, rfl, rfl⟩
    · rw [heq]
      exact ⟨rfl, rfl, rfl⟩
  | inr instanceId =>
    change (h.restart schema host instanceId).world.disk = _ ∧
      (h.restart schema host instanceId).world.settled = _ ∧
      (h.restart schema host instanceId).removals = _
    unfold Hosted.restart
    split
    · exact ⟨rfl, rfl, rfl⟩
    · split_ifs <;> exact ⟨rfl, rfl, rfl⟩

abbrev Lasts (schema : Schema Config Content) (process : Owner) (host : Host Config)
    (t : Transaction Config Content) (P : Hosted Config Content → Prop) : Prop :=
  Durable (hosting schema process host) (Invariant schema host t) P

abbrev Leaves {α : Type} (schema : Schema Config Content) (process : Owner) (host : Host Config)
    (t : Transaction Config Content) (Q : α → Hosted Config Content → Prop) (p : Agent Config α)
    (h : Hosted Config Content) : Prop :=
  Safe (hosting schema process host) (Invariant schema host t) Q
    (fun _ => Invariant schema host t) p h

section Durability

theorem durable_of_moved {C : Hosted Config Content → Prop} (hsane : ∀ h, P h → Sane h)
    (hmoved : ∀ h h', P h → Moved schema host h h' → P h') (hC : ∀ h, P h → C h) :
    Durable (hosting schema process host) C P :=
  ⟨fun event h hp => hmoved h _ hp ((hsane h hp).env event), hC⟩

instance durable_pending : Lasts schema process host t (Pending schema t journal) :=
  durable_of_moved (fun _ hp => hp.sane) (fun _ _ hp hm => hp.moved hm.toAdvanced)
    (fun _ hp => Or.inl ⟨journal, hp⟩)

instance durable_held (receipt : Status) :
    Lasts schema process host t (Held schema t journal receipt) :=
  durable_of_moved (fun _ hh => hh.pending.sane) (fun _ _ hh hm => hh.moved hm)
    (fun _ hh => Or.inl ⟨journal, hh.pending⟩)

instance durable_resolved (verdict : Verdict) :
    Lasts schema process host t (Resolved schema t journal verdict) :=
  durable_of_moved (fun _ hr => hr.held.pending.sane) (fun _ _ hr hm => hr.moved hm)
    (fun _ hr => Or.inl ⟨journal, hr.held.pending⟩)

instance durable_invariant : Lasts schema process host t (Invariant schema host t) := by
  refine ⟨?_, fun _ hi => hi⟩
  rintro event h (⟨journal, hp⟩ | ⟨hj, hdisturbed⟩ | hc)
  · exact Or.inl ⟨journal, hp.moved (hp.sane.env event).toAdvanced⟩
  · obtain ⟨hdisk, _, hremovals⟩ := @env_frame _ _ schema process host event h
    refine Or.inr (Or.inl ⟨by rw [hdisk]; exact hj, ?_⟩)
    rw [Disturbed, hremovals]
    exact hdisturbed
  · exact Or.inr (Or.inr (hc.moved (hc.sane.env event)))

end Durability

theorem safe_reading (op : Op Config) {Q : Answer op → Hosted Config Content → Prop}
    {E : Failure → Hosted Config Content → Prop} [Lasts schema process host t P]
    [∀ a, Lasts schema process host t (Q a)] [∀ e, Lasts schema process host t (E e)]
    (hr : reads op = true) (hh : P h) (hfail : ∀ e h, P h → E e h)
    (hok : ∀ choice h a, P h → (respond schema process choice op h.world).1 = .ok a → Q a h) :
    Safe (hosting schema process host) (Invariant schema host t) Q E (ask op) h :=
  Safe.ask_reading op (hosting_reads hr) hh hfail hok

theorem safe_ignored (op : Op Config) [hd : Lasts schema process host t P] (hr : reads op = true)
    (hh : P h) :
    Leaves schema process host t (fun _ => P) (ask op) h :=
  safe_reading op hr hh (fun _ h hp => hd.crash h hp) (fun _ _ _ hp _ => hp)

structure Observed (schema : Schema Config Content) (t : Transaction Config Content)
    (journal : Journal Config) (status : Status) (h : Hosted Config Content) : Prop where
  pending : Pending schema t journal h
  known : Known h status
  proved : status.contentHash = journal.prepared.targetHash → Held schema t journal status h

instance durable_observed (status : Status) :
    Lasts schema process host t (Observed schema t journal status) :=
  durable_of_moved (fun _ ho => ho.pending.sane)
    (fun _ _ ho hm => ⟨ho.pending.moved hm.toAdvanced, ho.known.onward hm.onward,
      fun heq => (ho.proved heq).moved hm⟩)
    (fun _ ho => Or.inl ⟨journal, ho.pending⟩)

theorem Pending.harmless_of_target (hp : Pending schema t journal h)
    (htarget : schema.fingerprint h.world.core.content = journal.prepared.targetHash) :
    AllHarmless schema h := by
  obtain ⟨after, hafter, hhash⟩ := hp.target
  intro request hr
  rcases hp.flight request hr with hh | rfl
  · exact hh
  · rw [hp.config]
    exact Or.inr (Or.inr ⟨after, hafter, hhash.trans htarget.symm⟩)

theorem known_status (hok : validateStatus (h.world.core.status schema) = .ok status) :
    status = h.world.core.status schema ∧ Known h status := by
  obtain ⟨rfl, hlt⟩ := validateStatus_ok hok
  refine ⟨rfl, ?_, hlt, Or.inr ⟨rfl, Nat.le_refl _⟩⟩
  unfold validateStatus at hok
  split_ifs at hok with hvalid
  exact instanceId_ne_empty_of_valid hvalid

theorem safe_status (hp : Pending schema t journal h) :
    Safe (hosting schema process host) (Invariant schema host t) (Observed schema t journal)
      (fun _ => Pending schema t journal) (ask .status) h := by
  apply safe_reading .status rfl hp (fun _ _ hp => hp)
  intro choice h status hp hok
  obtain ⟨rfl, hknown⟩ := known_status (unlessFailed_ok hok)
  refine ⟨hp, hknown, ?_⟩
  intro heq
  exact ⟨hp, Or.inr rfl, hp.harmless_of_target heq, fun _ => rfl, fun hne => absurd rfl hne⟩

theorem Pending.sent (hp : Pending schema t journal h) {request : Request Config} (choice : Choice)
    (hk : Known h request.expected)
    (hr : Harmless schema h request ∨ request = .put journal.config journal.prepared.expected) :
    Pending schema t journal { h with world := (h.world.send schema request choice).2 } := by
  have hperformed : ∀ accepted core, request.perform schema accepted h.world.core = .ok core →
      Pending schema t journal { h with world := { h.world with core := core } } :=
    fun _ _ hok => hp.moved (hp.sane.performed hok hk.bounded)
  cases hs : (h.world.send schema request choice).1 with
  | ok status =>
    obtain ⟨accepted, core, hok, heq, _⟩ := send_ok hs
    rw [heq]
    exact hperformed accepted core hok
  | error failure =>
    rcases send_error hs with heq | heq | ⟨accepted, core, hok, heq⟩
    · rw [heq]
      exact hp
    · rw [heq]
      refine ⟨⟨hp.sane.bounded, hp.sane.live, ?_⟩, hp.stored, hp.config, hp.target, hp.previous,
        ⟨hp.expected.named, hp.expected.bounded, hp.expected.reached⟩, ?_, hp.since⟩
      · intro other ho
        rcases List.mem_cons.mp ho with rfl | ho
        · exact { hk with }
        · have hother := hp.sane.flight other ho
          exact { hother with }
      · intro other ho
        rcases List.mem_cons.mp ho with rfl | ho
        · exact hr
        · exact hp.flight other ho
    · rw [heq]
      exact hperformed accepted core hok

theorem held_of_fence {fenced : Status} {choice : Choice} (hp : Pending schema t journal h)
    (hk : Known h status) (hok : (h.world.send schema (.fence status) choice).1 = .ok fenced) :
    Held schema t journal fenced { h with
      world := (h.world.send schema (.fence status) choice).2 } := by
  have hpending := @Pending.sent _ _ schema journal h t hp (.fence status) choice hk
    (Or.inl (Or.inr trivial))
  obtain ⟨accepted, core, hperform, heq, hvalid⟩ := send_ok hok
  rw [heq] at hpending ⊢
  obtain ⟨rfl, _⟩ := validateStatus_ok hvalid
  refine ⟨hpending, Or.inr rfl, ?_, fun _ => rfl, fun hne => absurd rfl hne⟩
  rcases perform_ok hperform with ⟨_, _, _, _, hput, _⟩ | ⟨_, ⟨_, _, rfl⟩ | ⟨_, _, _, hput, _⟩⟩
  · cases hput
  · intro request hr
    rcases (hp.sane.flight request hr).reached with hgone | ⟨_, hle⟩
    · exact Or.inl hgone
    right
    cases request with
    | fence expected => trivial
    | put config expected =>
      left
      rw [nextRevision_eq hp.sane.bounded]
      exact Nat.lt_succ_of_le hle
  · cases hput

theorem safe_fence (ho : Observed schema t journal status h) :
    Safe (hosting schema process host) (Invariant schema host t) (Held schema t journal)
      (fun _ => Pending schema t journal) (ask (.fence status)) h := by
  refine Safe.ask (Op.fence status) ho ?_ ?_
  · intro choice h fenced ho hok
    exact held_of_fence ho.pending ho.known hok
  · intro choice h failure ho _
    exact @Pending.sent _ _ schema journal h t ho.pending (.fence status) choice ho.known
      (Or.inl (Or.inr trivial))

theorem safe_conclude (hh : Held schema t journal verdict.receipt h)
    (hmeans : ∀ content, schema.fingerprint content = verdict.receipt.contentHash →
    Stands schema t verdict.outcome content)
    (hv : verdict.outcome = .applied ↔ verdict.receipt.contentHash = journal.prepared.targetHash) :
    Leaves schema process host t (Resolved schema t journal)
    (conclude journal.prepared verdict) h := by
  apply Safe.seq (Q := fun _ => Resolved schema t journal verdict)
  · refine Safe.ask (Op.settle _ _) hh ?_ ?_
    · rintro choice h a ⟨hp, hreached, hharmless, hsame, hother⟩ _
      obtain ⟨since, hsince⟩ := hp.since
      refine ⟨⟨⟨⟨hp.sane.bounded, hp.sane.live, ?_⟩, hp.stored, hp.config, hp.target, hp.previous,
        ⟨hp.expected.named, hp.expected.bounded, hp.expected.reached⟩, hp.flight, ?_⟩, hreached,
        hharmless, hsame, hother⟩, hmeans, ?_, hv⟩
      · intro request hr
        have hk := hp.sane.flight request hr
        exact { hk with }
      · exact ⟨_ :: since, congrArg (List.cons _) hsince⟩
      · exact ⟨_, since, congrArg (List.cons _) hsince, rfl, rfl⟩
    · intro choice h failure _ herr
      cases herr
  · intro _ h hr
    exact Safe.ret hr

end NodeManager.HostedPrograms
