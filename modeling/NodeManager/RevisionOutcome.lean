import NodeManager.RevisionTransaction

namespace NodeManager.RevisionOutcome

open JsonValues Programs Revisions RevisionTransaction

structure Attempt (Text : Type) where
  codec : Codec Text
  env : Env
  process : Nat × Nat
  before : Snapshot Text
  revisionId : Option String
  config : Object
  registry : Registry
  state : State
  action : String

namespace Attempt

variable {Text : Type} (a : Attempt Text)

def target : Bundle := a.env.bundle a.revisionId a.config a.registry

def journal (phase : Phase) : Journal Text :=
  ⟨1, phase, a.before, a.codec.digestBefore a.before, a.revisionId, a.env.digest a.target⟩

def written (files : Snapshot Text) (file : File) (bytes : Text) : Snapshot Text :=
  Function.update files file (some ⟨bytes, 0o600, a.process⟩)

def liveFiles : Snapshot Text :=
  a.written (Function.update a.before .config (some ⟨a.codec.configText a.config,
    ((a.before .config).map (·.mode)).getD 0o600,
    ((a.before .config).map (·.owner)).getD a.process⟩)) .registry (a.codec.registryText a.registry)

def keptFiles : Option Bundle → Snapshot Text
  | none => a.liveFiles
  | some previous =>
    a.written (a.written a.liveFiles .lastGoodBundle (a.codec.bundleText previous)) .lastGood
      (a.codec.configText previous.config)

def keptState : Option Bundle → State
  | none => a.state
  | some previous => a.state.keep a.env previous

def currentFiles (previous : Option Bundle) : Snapshot Text :=
  a.written (a.written (a.keptFiles previous) .bundle (a.codec.bundleText a.target)) .current
    (a.codec.configText a.config)

def targetFiles (previous : Option Bundle) (appliedAt time : String) : Snapshot Text :=
  a.written (a.currentFiles previous) .state
    (a.codec.stateText ((a.keptState previous).publish a.env a.target a.action appliedAt time))

def Published (files : Snapshot Text) : Prop :=
  ∃ previous appliedAt time, previousOf a.codec a.env a.state a.before = some previous ∧
    files = a.targetFiles previous appliedAt time

/-- Where the disk may be, at any time of a commit and of the recoveries after it. -/
inductive Standing (d : Disk Text) : Prop
  | untouched (journal : d.journal = none) (files : d.files = a.before)
  | pending (journal : d.journal = some (a.journal .prepared))
  | marked (journal : d.journal = some (a.journal .committed)) (files : a.Published d.files)
  | done (journal : d.journal = none) (files : a.Published d.files)

end Attempt

variable {Text : Type} {a : Attempt Text} {d : Disk Text} {files : Snapshot Text}
  {P : Disk Text → Prop} {choice : Choice} {after : Disk Text} {slips : List Slip}
  {E : Failure → Disk Text → Prop} {α : Type} {previous : Option Bundle} {appliedAt : String}
  {journal : Journal Text}

abbrev Steady (a : Attempt Text) (P : Disk Text → Prop) : Prop :=
  Durable (disk a.codec a.process) a.Standing P

theorem durable (h : ∀ d, P d → a.Standing d) : Steady a P :=
  ⟨fun event => event.elim, h⟩

abbrev Keeps {α : Type} (a : Attempt Text) (Q : α → Disk Text → Prop)
    (E : Failure → Disk Text → Prop) (p : Revision Text α) (d : Disk Text) : Prop :=
  Safe (disk a.codec a.process) a.Standing Q E p d

theorem replies_change {Q : Unit → Disk Text → Prop} (hok : Q () after)
    (hbefore : E (.other "OSError") d)
    (hafter : E (.other "OSError") { after with slips := slips ++ after.slips }) :
    Replies Q E (change choice d after slips) := by
  unfold change
  split
  · exact hok
  · exact hbefore
  · exact hafter

theorem replies_answer {value : Option α} {Q : α → Disk Text → Prop}
    (hok : ∀ v, value = some v → Q v d) (herr : ∀ failure, E failure d) :
    Replies Q E (answer choice d value) := by
  unfold answer
  split
  · exact hok _ rfl
  · exact herr _

def Writing (a : Attempt Text) (files : Snapshot Text) (d : Disk Text) : Prop :=
  d.journal = some (a.journal .prepared) ∧ d.files = files

def Pending (a : Attempt Text) (_ : Failure) (d : Disk Text) : Prop :=
  d.journal = some (a.journal .prepared)

instance durable_writing : Steady a (Writing a files) :=
  durable (fun _ h => .pending h.1)

instance durable_pending (failure : Failure) : Steady a (Pending a failure) :=
  durable (fun _ h => .pending h)

theorem safe_write (file : File) (bytes : Text) (mode : Nat) (owner : Option (Nat × Nat))
    (h : Writing a files d) :
    Keeps a (fun _ => Writing a (Function.update files file
      (some ⟨bytes, mode, owner.getD a.process⟩))) (Pending a) (ask (.write file bytes mode
      owner)) d := by
  refine Safe.ask_replies (Op.write _ _ _ _) h ?_
  intro choice d h
  exact replies_change ⟨h.1, congrArg (Function.update · file _) h.2⟩ h.1 h.1

theorem safe_writeJson (file : File) (bytes : Text) (h : Writing a files d) :
    Keeps a (fun _ => Writing a (a.written files file bytes)) (Pending a)
    (writeJson file bytes) d :=
  safe_write file bytes 0o600 none h

def Reads (a : Attempt Text) (op : Op Text) : Prop :=
  ∃ value : Disk Text → Choice → Option (Answer op),
    ∀ choice d, respond a.codec a.process choice op d = answer choice d (value d choice)

theorem safe_reading [Steady a P] [∀ failure, Steady a (E failure)] (op : Op Text)
    (hop : Reads a op) (herr : ∀ failure d, P d → E failure d) (h : P d) :
    Keeps a (fun _ => P) E (ask op) d := by
  refine Safe.ask_replies op h (fun choice d h => ?_)
  obtain ⟨value, hvalue⟩ := hop
  rw [show (disk a.codec a.process).respond choice op d = _ from hvalue choice d]
  exact replies_answer (fun _ _ => h) (fun failure => herr failure d h)

theorem safe_now (h : Writing a files d) :
    Keeps a (fun _ => Writing a files) (Pending a) (ask .now) d := by
  refine Safe.ask_replies Op.now h ?_
  exact fun _ _ h => h

theorem safe_readWriting (op : Op Text) (hop : Reads a op) (h : Writing a files d) :
    Keeps a (fun _ => Writing a files) (Pending a) (ask op) d :=
  safe_reading op hop (fun _ _ h => h.1) h

theorem safe_syncRegistry (h : Writing a files d) :
    Keeps a (fun _ => Writing a files) (Pending a) (ask .syncRegistry) d := by
  refine Safe.ask_replies Op.syncRegistry h ?_
  exact fun choice d h => replies_change h h.1 h.1

theorem safe_keepPrevious (h : Writing a a.liveFiles d) :
    Keeps a (fun kept d => ∃ previous, previousOf a.codec a.env a.state a.before = some previous ∧
        kept = a.keptState previous ∧ Writing a (a.keptFiles previous) d) (Pending a)
      (keepPrevious a.codec a.env a.state a.before) d := by
  have hdurable (kept : State) : Steady a (fun d => ∃ previous,
      previousOf a.codec a.env a.state a.before = some previous ∧ kept = a.keptState previous ∧
        Writing a (a.keptFiles previous) d) := durable (fun _ ⟨_, _, _, h⟩ => .pending h.1)
  unfold keepPrevious
  split
  · exact Safe.raise h.1
  next hprevious => exact Safe.ret ⟨none, hprevious, rfl, h⟩
  next previous hprevious =>
    apply Safe.seq (safe_writeJson .lastGoodBundle _ h)
    intro _ d h
    apply Safe.seq (safe_writeJson .lastGood _ h)
    intro _ d h
    exact Safe.ret ⟨some previous, hprevious, rfl, h⟩

def Marked (a : Attempt Text) (d : Disk Text) : Prop :=
  d.journal = some (a.journal .committed) ∧ a.Published d.files

def Failed (a : Attempt Text) (_ : Failure) (d : Disk Text) : Prop :=
  d.journal = some (a.journal .prepared) ∨ Marked a d ∧ d.slips ≠ []

instance durable_failed (failure : Failure) : Steady a (Failed a failure) := by
  refine durable (fun d h => ?_)
  obtain h | ⟨⟨hjournal, hfiles⟩, -⟩ := h
  · exact .pending h
  · exact .marked hjournal hfiles

instance durable_marked : Steady a (Marked a) := durable (fun _ h => .marked h.1 h.2)

theorem safe_marker {time : String}
    (hprevious : previousOf a.codec a.env a.state a.before = some previous)
    (h : Writing a (a.targetFiles previous appliedAt time) d) :
    Keeps a (fun _ => Marked a) (Failed a) (ask (.writeJournal (a.journal .committed))) d := by
  refine Safe.ask_replies (Op.writeJournal _) h ?_
  intro choice d h
  have hmarked : Marked a { d with journal := some (a.journal .committed) } :=
    ⟨rfl, previous, appliedAt, time, hprevious, h.2⟩
  exact replies_change hmarked (.inl h.1) (.inr ⟨hmarked, nofun⟩)

theorem safe_publish (h : Writing a a.before d) : Keeps a (fun _ => Marked a) (Failed a)
      (publish a.codec a.env a.target a.state a.action (a.journal .prepared)) d := by
  have hweak {α : Type} {Q : α → Disk Text → Prop} {p : Revision Text α} {d : Disk Text}
      (hp : Keeps a Q (Pending a) p d) :
      Keeps a Q (Failed a) p d := hp.mono (fun _ h => h) (fun _ _ h => h) (fun _ _ h => .inl h)
  apply Safe.seq (hweak (safe_write .config _ _ _ h))
  intro _ d h
  apply Safe.seq (hweak (safe_write .registry _ _ _ h))
  intro _ d h
  apply Safe.seq (hweak (safe_syncRegistry h))
  intro _ d h
  apply Safe.seq (hweak (safe_readWriting .observe ⟨_, fun _ _ => rfl⟩ h))
  intro found d h
  split
  · exact Safe.raise (.inl h.1)
  apply Safe.seq (hweak (safe_readWriting .reload ⟨_, fun _ _ => rfl⟩ h))
  intro reloaded d h
  cases reloaded with
  | false => exact Safe.raise (.inl h.1)
  | true =>
    apply Safe.seq (hweak (safe_keepPrevious h))
    rintro kept d ⟨previous, hprevious, rfl, h⟩
    apply Safe.seq (hweak (safe_writeJson .bundle _ h))
    intro _ d h
    apply Safe.seq (hweak (safe_writeJson .current _ h))
    intro _ d h
    apply Safe.seq (hweak (safe_now h))
    intro appliedAt d h
    apply Safe.seq (hweak (safe_now h))
    intro time d h
    apply Safe.seq (hweak (safe_writeJson .state _ h))
    intro _ d h
    apply Safe.seq (hweak (safe_readWriting .readState ⟨_, fun _ _ => rfl⟩ h))
    intro read d h
    apply Safe.seq (hweak (safe_readWriting .observe ⟨_, fun _ _ => rfl⟩ h))
    intro found d h
    split
    · exact Safe.raise (.inl h.1)
    · apply Safe.seq (safe_marker hprevious h)
      exact fun _ d h => Safe.ret h

def Untouched (a : Attempt Text) (d : Disk Text) : Prop := d.journal = none ∧ d.files = a.before

def Done (a : Attempt Text) (d : Disk Text) : Prop := d.journal = none ∧ a.Published d.files

instance durable_untouched : Steady a (Untouched a) :=
  durable (fun _ h => .untouched h.1 h.2)

instance durable_done : Steady a (Done a) := durable (fun _ h => .done h.1 h.2)

def Undoing (a : Attempt Text) (_ : Failure) (d : Disk Text) : Prop :=
  d.journal = some (a.journal .prepared) ∨ Untouched a d

def Finishing (a : Attempt Text) (_ : Failure) (d : Disk Text) : Prop := Marked a d ∨ Done a d

instance durable_undoing (failure : Failure) : Steady a (Undoing a failure) := by
  refine durable (fun d h => ?_)
  obtain h | h := h
  · exact .pending h
  · exact .untouched h.1 h.2

instance durable_finishing (failure : Failure) : Steady a (Finishing a failure) := by
  refine durable (fun d h => ?_)
  obtain h | h := h
  · exact .marked h.1 h.2
  · exact .done h.1 h.2

def Restoring (a : Attempt Text) (rest : List File) (d : Disk Text) : Prop :=
  d.journal = some (a.journal .prepared) ∧ ∀ file ∉ rest, d.files file = a.before file

instance durable_restoring (rest : List File) : Steady a (Restoring a rest) :=
  durable (fun _ h => .pending h.1)

theorem safe_restoreAll (h : d.journal = some (a.journal .prepared)) :
    Keeps a (fun _ => Writing a a.before) (Undoing a)
      (Prog.forEach (fun file => ask (.restore file (a.before file))) File.all) d := by
  have hloop : Keeps a (fun _ => Restoring a []) (Undoing a)
      (Prog.forEach (fun file => ask (.restore file (a.before file))) File.all) d := by
    refine Safe.forEach (I := Restoring a) ⟨h, fun file hfile => ?_⟩ (fun file rest d _ h => ?_)
    · cases file <;> exact absurd (by decide) hfile
    refine Safe.ask_replies (Op.restore file _) h ?_
    intro choice d h
    refine replies_change ⟨h.1, fun other hother => ?_⟩ (.inl h.1) (.inl h.1)
    by_cases heq : other = file
    · rw [heq]
      exact Function.update_self file _ d.files
    · refine (Function.update_of_ne heq _ d.files).trans (h.2 other ?_)
      exact fun hmem => (List.mem_cons.mp hmem).elim heq hother
  exact hloop.mono (fun _ h => h)
    (fun _ _ h => ⟨h.1, funext (fun file => h.2 file List.not_mem_nil)⟩) (fun _ _ h => h)

theorem safe_recoverPrepared [DecidableEq Text] (h : d.journal = some (a.journal .prepared)) :
    Keeps a (fun _ => Untouched a) (Undoing a)
    (recoverPrepared a.codec (a.journal .prepared)) d := by
  have hread (op : Op Text) (hop : Reads a op) {d : Disk Text}
    (h : Writing a a.before d) : Keeps a (fun _ => Writing a a.before) (Undoing a) (ask op) d :=
    safe_reading op hop (fun _ _ h => .inl h.1) h
  unfold recoverPrepared
  split
  · exact Safe.raise (.inl h)
  apply Safe.seq (safe_restoreAll h)
  intro _ d h
  apply Safe.seq (Q := fun _ => Writing a a.before)
  · refine Safe.forEach (I := fun _ => Writing a a.before) h (fun file _ d _ h => ?_)
    apply Safe.seq (hread (.capture file) ⟨_, fun _ _ => rfl⟩ h)
    intro record d h
    split
    · exact Safe.raise (.inl h.1)
    · exact Safe.ret h
  intro _ d h
  split
  · exact Safe.raise (.inl h.1)
  apply Safe.seq (hread .reload ⟨_, fun _ _ => rfl⟩ h)
  intro reloaded d h
  cases reloaded with
  | false => exact Safe.raise (.inl h.1)
  | true =>
    have hremove : Keeps a (fun _ => Untouched a) (Undoing a) (ask .removeJournal) d := by
      refine Safe.ask_replies Op.removeJournal h ?_
      exact fun choice d h => replies_change ⟨rfl, h.2⟩ (.inl h.1) (.inr ⟨rfl, h.2⟩)
    apply Safe.seq hremove
    exact fun _ d h => Safe.ret h

theorem safe_recoverCommitted (h : Marked a d) :
    Keeps a (fun _ => Done a) (Finishing a) (recoverCommitted a.env (a.journal .committed)) d := by
  have hread (op : Op Text) (hop : Reads a op) {d : Disk Text}
    (h : Marked a d) : Keeps a (fun _ => Marked a) (Finishing a) (ask op) d :=
    safe_reading op hop (fun _ _ h => .inl h) h
  apply Safe.seq (hread .readState ⟨_, fun _ _ => rfl⟩ h)
  intro state d h
  apply Safe.seq (hread .observe ⟨_, fun _ _ => rfl⟩ h)
  intro found d h
  apply Safe.seq (hread .readBundle ⟨_, fun _ _ => rfl⟩ h)
  intro current d h
  split
  · exact Safe.raise (.inl h)
  have hremove : Keeps a (fun _ => Done a) (Finishing a) (ask .removeJournal) d := by
    refine Safe.ask_replies Op.removeJournal h ?_
    exact fun choice d h => replies_change ⟨rfl, h.2⟩ (.inl h) (.inr ⟨rfl, h.2⟩)
  apply Safe.seq hremove
  exact fun _ d h => Safe.ret h

theorem safe_recoverLocked [DecidableEq Text]
    {R : Disk Text → Prop} [Steady a P] [∀ failure, Steady a (E failure)]
    (hjournal : ∀ d, P d → d.journal = some journal)
    (hE : ∀ failure failure' d, E failure d → E failure' d) (herr : ∀ failure d, P d → E failure d)
    (hbody : ∀ d, P d → Keeps a (fun _ => R) E
      (if journal.version ≠ 1 then raise (.other "invalid recovery version")
        else
          match journal.phase with
          | .committed => recoverCommitted a.env journal
          | .prepared => recoverPrepared a.codec journal) d) (h : P d) :
    Keeps a (fun _ => R) E (recoverLocked a.codec a.env) d := by
  have hexists : Keeps a (fun found d => found = true ∧ P d) E (ask .journalExists) d := by
    refine Safe.ask_replies Op.journalExists h ?_
    intro choice d h
    exact ⟨congrArg Option.isSome (hjournal d h), h⟩
  apply Safe.seq hexists
  rintro _ d ⟨rfl, h⟩
  have hread : Keeps a (fun found d => found = some journal ∧ P d) E (ask .readJournal) d := by
    refine Safe.ask_replies Op.readJournal h ?_
    intro choice d h
    refine replies_answer (fun found hfound => ?_) (fun failure => herr failure d h)
    exact ⟨(Option.some.inj hfound).symm.trans (hjournal d h), h⟩
  refine Safe.handle (Safe.seq hread ?_) (fun failure d h => Safe.raise (hE failure _ d h))
  rintro _ d ⟨rfl, h⟩
  exact hbody d h

theorem safe_recover_prepared [DecidableEq Text] (h : d.journal = some (a.journal .prepared)) :
    Keeps a (fun _ => Untouched a) (Undoing a) (recoverLocked a.codec a.env) d := by
  have : Steady a (fun d => d.journal = some (a.journal .prepared)) :=
    durable (fun _ h => .pending h)
  exact safe_recoverLocked (fun _ h => h) (fun _ _ _ h => h) (fun _ _ h => .inl h)
    (fun _ h => safe_recoverPrepared h) h

theorem safe_recover_committed [DecidableEq Text] (h : Marked a d) :
    Keeps a (fun _ => Done a) (Finishing a) (recoverLocked a.codec a.env) d := by
  have hjournal : ∀ d, Marked a d → d.journal = some (a.journal .committed) := fun _ h => h.1
  exact safe_recoverLocked hjournal (fun _ _ _ h => h) (fun _ _ h => .inl h)
    (fun _ h => safe_recoverCommitted h) h

theorem safe_recover_idle [DecidableEq Text] [Steady a P]
    (hjournal : ∀ d, P d → d.journal = none) (h : P d) :
    Keeps a (fun _ => P) (fun _ => P) (recoverLocked a.codec a.env) d := by
  have hexists : Keeps a (fun found d => found = false ∧ P d) (fun _ => P)
      (ask .journalExists) d := by
    refine Safe.ask_replies Op.journalExists h ?_
    intro choice d h
    exact ⟨congrArg Option.isSome (hjournal d h), h⟩
  apply Safe.seq hexists
  rintro _ d ⟨rfl, h⟩
  exact Safe.ret h

theorem safe_recover [DecidableEq Text] (h : a.Standing d) :
    Keeps a (fun _ d => Untouched a d ∨ Done a d) (fun _ => a.Standing)
    (recoverLocked a.codec a.env) d := by
  cases h with
  | untouched hjournal hfiles =>
    exact (safe_recover_idle (P := Untouched a) (fun _ h => h.1) ⟨hjournal, hfiles⟩).mono
      (fun _ h => h) (fun _ _ h => .inl h) (fun _ _ h => .untouched h.1 h.2)
  | pending hjournal =>
    exact (safe_recover_prepared hjournal).mono (fun _ h => h) (fun _ _ h => .inl h)
      (durable_undoing · |>.crash)
  | marked hjournal hfiles =>
    exact (safe_recover_committed ⟨hjournal, hfiles⟩).mono (fun _ h => h) (fun _ _ h => .inr h)
      (durable_finishing · |>.crash)
  | done hjournal hfiles =>
    exact (safe_recover_idle (P := Done a) (fun _ h => h.1) ⟨hjournal, hfiles⟩).mono (fun _ h => h)
      (fun _ _ h => .inr h) (fun _ _ h => .done h.1 h.2)

def SaysRestored (failure : Failure) : Prop :=
  ∃ error, failure = .config ("revision failed; previous bundle restored: " ++ error)

def Blocked (d : Disk Text) : Prop := ∃ failure, assertNoPendingTransaction d = .error failure

theorem blocked_of_journal (h : d.journal = some journal) : Blocked d := by
  rw [Blocked, assertNoPendingTransaction, h]
  exact ⟨_, rfl⟩

/-- What an error says is so: the files were restored, nothing was changed, or a journal is left
that blocks. -/
def Truthful (a : Attempt Text) (failure : Failure) (d : Disk Text) : Prop :=
  (SaysRestored failure → d.files = a.before) ∧ (d.files = a.before ∨ Blocked d)

def Raised (a : Attempt Text) (failure : Failure) (d : Disk Text) : Prop :=
  a.Standing d ∧ (d.slips = [] → Truthful a failure d)

instance durable_raised (failure : Failure) : Steady a (Raised a failure) :=
  durable (fun _ h => h.1)

theorem not_saysRestored_retained :
    ¬SaysRestored (.config "revision failed; recovery required; journal retained") := by
  rintro ⟨error, heq⟩
  have htext := congrArg (fun text : String => text.toList.take 18) (Failure.config.inj heq)
  simp at htext

theorem not_saysRestored_other (message : String) : ¬SaysRestored (.other message) := by
  rintro ⟨error, heq⟩
  cases heq

theorem slips_change (hd : d.slips ≠ []) (hafter : after.slips = d.slips) :
    (change choice d after slips).2.slips ≠ [] := by
  unfold change
  split
  · exact hafter ▸ hd
  · exact hd
  · exact fun hnil => hd (hafter ▸ (List.append_eq_nil_iff.mp hnil).2)

theorem snd_answer (choice : Choice) (d : Disk Text) (value : Option α) :
    (answer choice d value).2 = d := by
  unfold answer
  split <;> rfl

theorem safe_slipped (p : Revision Text α) (hd : d.slips ≠ []) :
    Safe (disk a.codec a.process) (fun d => d.slips ≠ []) (fun _ d => d.slips ≠ [])
    (fun _ d => d.slips ≠ []) p d := by
  refine Safe.of_closed ?_ (fun event _ _ => Empty.elim event) p hd
  intro choice op d hd
  cases op with
  | writeJournal journal => exact slips_change hd rfl
  | write file bytes mode owner => exact slips_change hd rfl
  | syncRegistry => exact slips_change hd rfl
  | restore file record => exact slips_change hd rfl
  | removeJournal => exact slips_change hd rfl
  | now => exact hd
  | journalExists => exact hd
  | _ => exact (snd_answer choice d _).symm ▸ hd

theorem Untouched.raised (h : Untouched a d) (failure : Failure) : Raised a failure d :=
  ⟨.untouched h.1 h.2, fun _ => ⟨fun _ => h.2, .inl h.2⟩⟩

theorem safe_rollBack [DecidableEq Text] (error : Failure) (h : Failed a error d) :
    Keeps a (fun _ _ => False) (Raised a) (rollBack a.codec a.env error) d := by
  obtain h | ⟨hmarked, hslips⟩ := h
  · apply Safe.seq (safe_recover_prepared h).attempt
    intro outcome d h
    have hretained {failure : Failure} (hsilent : ¬SaysRestored failure)
      (h : Undoing a error d) : Raised a failure d :=
      ⟨(durable_undoing error).crash d h, fun _ => ⟨(absurd · hsilent),
        h.elim (fun h => .inr (blocked_of_journal h)) (fun h => .inl h.2)⟩⟩
    match outcome, h with
    | .ok _, h => exact Safe.raise (Untouched.raised h _)
    | .error (.config _), h => exact Safe.raise (hretained not_saysRestored_retained h)
    | .error (.other message), h => exact Safe.raise (hretained (not_saysRestored_other message) h)
  · -- The marker is there although writing it has raised: recovery takes the commit for done.
    have hstanding : Keeps a (fun _ => a.Standing) (fun _ => a.Standing)
      (recoverLocked a.codec a.env) d :=
      (safe_recover_committed hmarked).mono (fun _ h => h) (fun _ _ h => .done h.1 h.2)
        (durable_finishing · |>.crash)
    have hdurable : Steady a (fun d => a.Standing d ∧ d.slips ≠ []) :=
      durable (fun _ h => h.1)
    have hboth : Keeps a (fun _ d => a.Standing d ∧ d.slips ≠ [])
        (fun _ d => a.Standing d ∧ d.slips ≠ []) (recoverLocked a.codec a.env) d :=
      (hstanding.and (safe_slipped _ hslips)).mono (fun _ h => h.1) (fun _ _ h => h)
        (fun _ _ h => h)
    apply Safe.seq hboth.attempt
    intro outcome d hd
    have hraised (failure : Failure) (h : a.Standing d ∧ d.slips ≠ []) : Raised a failure d :=
      ⟨h.1, fun hnone => absurd hnone h.2⟩
    match outcome, hd with
    | .ok _, h => exact Safe.raise (hraised _ h)
    | .error (.config _), h => exact Safe.raise (hraised _ h)
    | .error (.other _), h => exact Safe.raise (hraised _ h)

theorem safe_captureAll (names : List File) (before : Snapshot Text)
    (hbefore : ∀ file ∉ names, before file = a.before file) (h : Untouched a d) :
    Keeps a (fun found d => found = a.before ∧ Untouched a d) (Raised a)
    (captureAll names before) d := by
  induction names generalizing before d with
  | nil => exact Safe.ret ⟨funext (fun file => hbefore file List.not_mem_nil), h⟩
  | cons file names ih =>
    have hcapture : Keeps a (fun record d => record = a.before file ∧ Untouched a d) (Raised a)
      (ask (.capture file))
        d := by
      refine Safe.ask_replies (Op.capture file) h ?_
      intro choice d h
      refine replies_answer (fun record hrecord => ⟨?_, h⟩)
        (fun failure => Untouched.raised h failure)
      rw [← Option.some.inj hrecord, h.2]
    apply Safe.seq hcapture
    rintro _ d ⟨rfl, h⟩
    refine ih _ (fun other hother => ?_) h
    by_cases heq : other = file
    · rw [heq]
      exact Function.update_self file _ before
    · rw [Function.update_of_ne heq]
      exact hbefore other (fun hmem => (List.mem_cons.mp hmem).elim heq hother)

theorem safe_commit [DecidableEq Text] (h : Untouched a d) :
    Keeps a (fun _ => Done a) (Raised a) (commit a.codec a.env a.target a.state a.action) d := by
  have hvalidate : Keeps a (fun _ => Untouched a) (Raised a) (ask (.validate a.target.config)) d :=
    safe_reading (.validate _) ⟨_, fun _ _ => rfl⟩
      (fun failure _ h => Untouched.raised h failure) h
  apply Safe.seq hvalidate
  intro _ d h
  apply Safe.seq (safe_captureAll File.all (fun _ => none) (fun file hfile => ?_) h)
  swap
  · cases file <;> exact absurd (by decide) hfile
  rintro _ d ⟨rfl, h⟩
  have hjournal : Keeps a (fun _ => Writing a a.before) (Raised a)
      (ask (.writeJournal (a.journal .prepared))) d := by
    refine Safe.ask_replies (Op.writeJournal _) h ?_
    intro choice d h
    refine replies_change ⟨rfl, h.2⟩ (Untouched.raised h _) ?_
    exact ⟨.pending rfl, fun _ => ⟨fun _ => h.2, .inl h.2⟩⟩
  apply Safe.seq hjournal
  intro _ d h
  apply Safe.seq (safe_publish h).attempt
  intro outcome d h
  match outcome, h with
  | .error error, h =>
    exact (safe_rollBack error h).mono (fun _ h => h) (fun _ _ h => h.elim) (fun _ _ h => h)
  | .ok published, h =>
    have hremove : Keeps a (fun _ => Done a) (Raised a) (ask .removeJournal) d := by
      refine Safe.ask_replies Op.removeJournal (P := Marked a) h ?_
      intro choice d h
      have hremoval : d.journal.any (·.phase = .committed) = true := by
        rw [h.1]
        rfl
      refine replies_change ⟨rfl, h.2⟩ ⟨.marked h.1 h.2, fun _ => ?_⟩
        ⟨.done rfl h.2, fun hnone => ?_⟩
      · exact ⟨fun hsays => absurd hsays (not_saysRestored_other _), .inr (blocked_of_journal h.1)⟩
      · rw [hremoval] at hnone
        cases hnone
    apply Safe.seq hremove
    exact fun _ d h => Safe.ret h

theorem eval_restoreAll (d : Disk Text) :
    (Prog.forEach (fun file => ask (.restore file (a.before file))) File.all).eval
    (respond a.codec a.process {}) d =
      (.ok (), { d with files := a.before }) := by
  refine congrArg (fun files => ((.ok (), { d with files := files }) : Except Failure Unit ×
    Disk Text)) ?_
  funext file
  cases file <;> rfl

theorem eval_checkAll [DecidableEq Text] (hd : d.files = a.before) (names : List File) :
    (Prog.forEach (fun file => do
      let record ← ask (.capture file)
      if record ≠ a.before file then raise (.other "recovery readback mismatch")
      else pure ()) names).eval
        (respond a.codec a.process {}) d = (.ok (), d) := by
  induction names with
  | nil => rfl
  | cons file names ih =>
    have hstep : (do
        let record ← ask (.capture file)
        if record ≠ a.before file then raise (.other "recovery readback mismatch")
        else pure () : Revision Text Unit).eval
          (respond a.codec a.process {}) d = (.ok (), d) := by
      refine (Prog.eval_seq_ok (v := d) (a := d.files file) rfl).trans ?_
      rw [hd, if_neg (not_not.mpr rfl)]
      rfl
    exact (Prog.eval_bind_ok hstep).trans ih

theorem eval_recoverPrepared [DecidableEq Text] (d : Disk Text)
    (hconfig : a.before .config ≠ none) :
    (recoverPrepared a.codec (a.journal .prepared)).eval (respond a.codec a.process {}) d =
      (.ok true, { d with journal := none, files := a.before }) := by
  have hhash : ¬(a.journal .prepared).beforeHash ≠
    a.codec.digestBefore (a.journal .prepared).before := not_not.mpr rfl
  rw [recoverPrepared, if_neg hhash]
  refine (Prog.eval_seq_ok (eval_restoreAll d)).trans ?_
  refine (Prog.eval_seq_ok (eval_checkAll rfl File.all)).trans ?_
  have hprevious : ¬(a.journal .prepared).before .config = none := hconfig
  rw [if_neg hprevious]
  rfl

theorem observed_target {time : String} (hd : d.files = a.targetFiles previous appliedAt time) :
    observed a.codec d = some (a.config, a.registry) := by
  have hconfig : d.text .config = some (a.codec.configText a.config) := by
    rw [Disk.text, hd]
    cases previous <;> rfl
  have hregistry : d.text .registry = some (a.codec.registryText a.registry) := by
    rw [Disk.text, hd]
    cases previous <;> rfl
  simp [observed, hconfig, hregistry, a.codec.parse_configText, a.codec.parse_registryText]

theorem eval_recoverCommitted (hfiles : a.Published d.files) :
    (recoverCommitted a.env (a.journal .committed)).eval (respond a.codec a.process {}) d =
      (.ok true, { d with journal := none }) := by
  obtain ⟨previous, appliedAt, time, -, hd⟩ := hfiles
  have hstate : (d.text .state).bind a.codec.parseState =
      some ((a.keptState previous).publish a.env a.target a.action appliedAt time) := by
    rw [Disk.text, hd]
    exact a.codec.parse_stateText _
  have hbundle : (d.text .bundle).bind a.codec.parseBundle = some a.target := by
    rw [Disk.text, hd]
    exact a.codec.parse_bundleText _
  refine (Prog.eval_seq_ok (v := d)
    ((Prog.eval_ask _ _).trans (congrArg (answer {} d) hstate))).trans ?_
  refine (Prog.eval_seq_ok (v := d)
    ((Prog.eval_ask _ _).trans (congrArg (answer {} d) (observed_target hd)))).trans ?_
  refine (Prog.eval_seq_ok (v := d)
    ((Prog.eval_ask _ _).trans (congrArg (answer {} d) hbundle))).trans ?_
  rw [if_neg]
  · rfl
  rintro (h | h | h | h)
  · exact h rfl
  · exact h rfl
  · exact h rfl
  · exact h rfl

theorem recover_ends [DecidableEq Text] (h : a.Standing d) (hconfig : a.before .config ≠ none) :
    ∃ recovered d', (recoverLocked a.codec a.env).eval (respond a.codec a.process {}) d =
    (.ok recovered, d') ∧
      (Untouched a d' ∨ Done a d') := by
  have hexists (journal : Option (Journal Text)) (hjournal : d.journal = journal) :
      (ask .journalExists).eval (respond a.codec a.process {}) d = (.ok journal.isSome, d) := by
    rw [← hjournal]
    rfl
  have hread (journal : Journal Text) (hjournal : d.journal = some journal) :
      (ask .readJournal).eval (respond a.codec a.process {}) d = (.ok (some journal), d) := by
    rw [← hjournal]
    rfl
  cases h with
  | untouched hjournal hfiles =>
    exact ⟨false, d, Prog.eval_seq_ok (hexists none hjournal), .inl ⟨hjournal, hfiles⟩⟩
  | done hjournal hfiles =>
    exact ⟨false, d, Prog.eval_seq_ok (hexists none hjournal), .inr ⟨hjournal, hfiles⟩⟩
  | pending hjournal =>
    refine ⟨true, { d with journal := none, files := a.before }, ?_, .inl ⟨rfl, rfl⟩⟩
    refine (Prog.eval_seq_ok (hexists _ hjournal)).trans ((Prog.eval_handle _ _ _).trans ?_)
    rw [(Prog.eval_seq_ok (hread _ hjournal)).trans (eval_recoverPrepared d hconfig)]
  | marked hjournal hfiles =>
    refine ⟨true, { d with journal := none }, ?_, .inr ⟨rfl, hfiles⟩⟩
    refine (Prog.eval_seq_ok (hexists _ hjournal)).trans ((Prog.eval_handle _ _ _).trans ?_)
    rw [(Prog.eval_seq_ok (hread _ hjournal)).trans (eval_recoverCommitted hfiles)]

def stopped [DecidableEq Text] (a : Attempt Text)
    (schedule : List (Action (disk a.codec a.process))) :
    Revision Text State × Disk Text :=
  Runs.run (advance (disk a.codec a.process)) schedule
    (commit a.codec a.env a.target a.state a.action, ⟨a.before, none, []⟩)

def recovered [DecidableEq Text] (a : Attempt Text)
    (recoveries : List (List (Action (disk a.codec a.process)))) (d : Disk Text) : Disk Text :=
  Runs.run (fun schedule d => session (disk a.codec a.process)
    (recoverLocked a.codec a.env, schedule) d) recoveries d

theorem standing_recovered [DecidableEq Text]
    (recoveries : List (List (Action (disk a.codec a.process)))) (h : a.Standing d) :
    a.Standing (recovered a recoveries d) := by
  induction recoveries generalizing d with
  | nil => exact h
  | cons schedule recoveries ih => exact ih (safe_recover h schedule).1

structure Outcome [DecidableEq Text] (a : Attempt Text)
    (schedule : List (Action (disk a.codec a.process)))
    (recoveries : List (List (Action (disk a.codec a.process)))) : Prop where
  returned : ∀ published, (stopped a schedule).1 = .ret published →
    a.Published (stopped a schedule).2.files
  raised : ∀ failure, (stopped a schedule).1 = .raise failure → (stopped a schedule).2.slips = [] →
    Truthful a failure (stopped a schedule).2
  settled : (recovered a recoveries (stopped a schedule).2).journal = none →
    (recovered a recoveries (stopped a schedule).2).files = a.before ∨
      a.Published (recovered a recoveries (stopped a schedule).2).files
  ends : ∀ again result, (Runs.run (advance (disk a.codec a.process)) again
      (recoverLocked a.codec a.env, recovered a recoveries (stopped a schedule).2)).1 =
      .ret result →
    (recovered a (recoveries ++ [again]) (stopped a schedule).2).journal = none
  possible : a.before .config ≠ none →
    ∃ result d', (recoverLocked a.codec a.env).eval (respond a.codec a.process {})
    (recovered a recoveries (stopped a schedule).2) = (.ok result, d') ∧
      d'.journal = none ∧ (d'.files = a.before ∨ a.Published d'.files)

/-- Whatever fails in a commit, before its effect or after, what the commit reports is so, unless
writing its marker raises after the marker is there or removing the marked journal raises after it
is gone; and recovery ends with the files before or with the target. -/
theorem revision_outcome_true [DecidableEq Text] (a : Attempt Text)
    (schedule : List (Action (disk a.codec a.process)))
    (recoveries : List (List (Action (disk a.codec a.process)))) :
    Outcome a schedule recoveries := by
  obtain ⟨hstanding, hreturned, hraised⟩ :=
    safe_commit (d := ⟨a.before, none, []⟩) ⟨rfl, rfl⟩ schedule
  have hrecovered := standing_recovered recoveries hstanding
  refine ⟨fun published hret => (hreturned published hret).2,
    fun failure hraise => (hraised failure hraise).2, fun hjournal => ?_,
    fun again result hret => ?_, fun hconfig => ?_⟩
  · cases hrecovered with
    | untouched _ hfiles => exact .inl hfiles
    | pending hpending => cases hjournal.symm.trans hpending
    | marked hmarked _ => cases hjournal.symm.trans hmarked
    | done _ hfiles => exact .inr hfiles
  · have hend := (safe_recover hrecovered again).2.1 result hret
    rw [recovered, Runs.run_append]
    exact hend.elim (·.1) (·.1)
  · obtain ⟨result, d', heval, hend⟩ := recover_ends hrecovered hconfig
    refine ⟨result, d', heval, ?_⟩
    obtain hend | hend := hend
    · exact ⟨hend.1, .inl hend.2⟩
    · exact ⟨hend.1, .inr hend.2⟩

inductive Value
  | config (value : Object)
  | registry (value : Registry)
  | bundle (value : Bundle)
  | state (value : State)
  deriving DecidableEq

def valueCodec : Codec Value where
  configText := .config
  registryText := .registry
  bundleText := .bundle
  stateText := .state
  parseConfig | .config value => some value | _ => none
  parseRegistry | .registry value => some value | _ => none
  parseBundle | .bundle value => some value | _ => none
  parseState | .state value => some value | _ => none
  parse_configText _ := rfl
  parse_registryText _ := rfl
  parse_bundleText _ := rfl
  parse_stateText _ := rfl
  digestBefore _ := "before"

def firstRevision : Attempt Value where
  codec := valueCodec
  env := ⟨"node", fun b => b.revisionId.getD "", fun _ => "config", fun _ => "registry"⟩
  process := (0, 0)
  before
    | .config => some ⟨.config [], 0o600, (0, 0)⟩
    | .registry => some ⟨.registry {}, 0o600, (0, 0)⟩
    | _ => none
  revisionId := some "one"
  config := [("inbounds", .arr [])]
  registry := {}
  state := {}
  action := "applied"

def faultAt (position : Nat) : List (Action (disk valueCodec (0, 0))) :=
  List.replicate position (.call {}) ++
    .call { fault := some .after } :: List.replicate 20 (.call {})

/-- A write fails and the files are restored; without it the revision is published. -/
theorem failed_write_restored :
    (stopped firstRevision (faultAt 12)).1.error? =
      some (.config "revision failed; previous bundle restored: OSError") ∧
    (stopped firstRevision (faultAt 12)).2.files = firstRevision.before ∧
    firstRevision.Published (stopped firstRevision (List.replicate 25 (.call {}))).2.files := by
  have herror : (stopped firstRevision (faultAt 12)).1.error? =
      some (.config "revision failed; previous bundle restored: OSError") := by decide
  refine ⟨herror, ?_, ?_⟩
  · have hraised := (revision_outcome_true firstRevision (faultAt 12) []).raised
    cases hend : (stopped firstRevision (faultAt 12)).1 with
    | raise failure =>
      rw [hend] at herror
      cases herror
      exact (hraised _ hend (by decide)).1 ⟨"OSError", rfl⟩
    | _ =>
      rw [hend] at herror
      cases herror
  · obtain ⟨published, hend⟩ : ∃ published,
        (stopped firstRevision (List.replicate 25 (.call {}))).1 = .ret published := ⟨_, rfl⟩
    exact (revision_outcome_true firstRevision (List.replicate 25 (.call {})) []).returned
      published hend

/-- The directory cannot be synced after the marker is written: the error says that the previous
bundle is restored, but the files are those of the revision. After the journal is removed: there is
an error, no journal, and the files of the revision. -/
theorem marker_reported_as_restored : ((stopped firstRevision (faultAt 23)).1.error? =
        some (.config "revision failed; previous bundle restored: OSError") ∧
      (stopped firstRevision (faultAt 23)).2.files .config ≠ firstRevision.before .config ∧
      (stopped firstRevision (faultAt 23)).2.journal.isSome = false) ∧
    ((stopped firstRevision (faultAt 24)).1.error? = some (.other "OSError") ∧
      (stopped firstRevision (faultAt 24)).2.files .config ≠ firstRevision.before .config ∧
      (stopped firstRevision (faultAt 24)).2.journal.isSome = false) := by
  decide

end NodeManager.RevisionOutcome
