import NodeManager.FenceInvariant

namespace NodeManager.FencePrograms

open Programs RuntimeCore Publication PublicationWorld FenceInvariant

variable {Config Content : Type} {schema : Schema Config Content} {process : Owner}
  {journal : Journal Config} {w : World Config Content} {P : World Config Content → Prop}
  {choice : Choice} {status : Status} {request : Request Config}

def reads : Op Config → Bool
  | .apply _ _ | .fence _ | .restore _ _ | .writeJournal _ | .removeJournal | .settle _ _ => false
  | _ => true

theorem respond_of_reads {op : Op Config} (hr : reads op = true) (choice : Choice)
    (w : World Config Content) :
    (respond schema process choice op w).2 = w := by
  cases op with
  | preview config =>
    simp only [respond]
    split <;> rfl
  | readJournal =>
    simp only [respond]
    split <;> rfl
  | readAliases =>
    simp only [respond]
    split <;> rfl
  | mergeAliases config aliases =>
    simp only [respond]
    split <;> rfl
  | checkMode | enabled | status | capture | journalExists | bindOwners | versions => rfl
  | apply | fence | restore | writeJournal | removeJournal | settle => cases hr

def Pending (schema : Schema Config Content) (journal : Journal Config)
    (w : World Config Content) : Prop :=
  Coherent schema w ∧ w.disk.journal = some journal

/-- The publication of the journal is decided: nothing on its way can change the core. -/
def Resolved (schema : Schema Config Content) (journal : Journal Config)
    (w : World Config Content) : Prop :=
  Pending schema journal w ∧ AllInert schema w

abbrev Lasts (schema : Schema Config Content) (process : Owner)
    (P : World Config Content → Prop) : Prop :=
  Durable (network schema process) (Coherent schema) P

abbrev Leaves {α : Type} (schema : Schema Config Content) (process : Owner)
    (Q : α → World Config Content → Prop) (p : Agent Config α) (w : World Config Content) : Prop :=
  Safe (network schema process) (Coherent schema) Q (fun _ => Coherent schema) p w

instance durable_coherent : Lasts schema process (Coherent schema) :=
  ⟨fun event _ hw => hw.occur event, fun _ hw => hw⟩

theorem disk_occur (hw : Coherent schema w) (event : Event) :
    (event.occur schema w).disk = w.disk :=
  (later_occur hw event).2.2.2.1

instance durable_pending : Lasts schema process (Pending schema journal) := by
  refine ⟨?_, fun _ hw => hw.1⟩
  rintro event w ⟨hw, hj⟩
  exact ⟨hw.occur event, (congrArg Disk.journal (disk_occur hw event)).trans hj⟩

instance durable_resolved : Lasts schema process (Resolved schema journal) := by
  refine ⟨?_, fun _ hw => hw.1.1⟩
  rintro event w ⟨hw, hi⟩
  exact ⟨durable_pending.stable event w hw, hi.occur hw.1 event⟩

theorem safe_reading (op : Op Config) {Q : Answer op → World Config Content → Prop}
    {E : Failure → World Config Content → Prop} [Lasts schema process P]
    [∀ a, Lasts schema process (Q a)] [∀ e, Lasts schema process (E e)] (hr : reads op = true)
    (hfail : ∀ e w, P w → E e w) (hw : P w)
    (hok : ∀ choice w a, P w → (respond schema process choice op w).1 = .ok a → Q a w) :
    Safe (network schema process) (Coherent schema) Q E (ask op) w :=
  Safe.ask_reading op (respond_of_reads hr) hw hfail hok

theorem safe_ignored (op : Op Config) [hd : Lasts schema process P] (hr : reads op = true)
    (hw : P w) :
    Leaves schema process (fun _ => P) (ask op) w :=
  safe_reading op hr (fun _ w hw => hd.crash w hw) hw (fun _ _ _ hw _ => hw)

theorem unlessFailed_ok {α : Type} {result : Except Failure α} {a : α}
    (hok : unlessFailed result choice = .ok a) :
    result = .ok a := by
  unfold unlessFailed at hok
  split at hok
  · cases hok
  · exact hok

theorem validateStatus_ok {status' : Status} (hok : validateStatus status = .ok status') :
    status' = status ∧ status.revision < revisionBound := by
  unfold validateStatus at hok
  split_ifs at hok with hvalid
  cases hok
  rw [validStatus, Bool.and_eq_true, decide_eq_true_eq] at hvalid
  exact ⟨rfl, hvalid.1.2.2⟩

theorem instanceId_ne_empty_of_valid (hvalid : validStatus status = true) :
    status.instanceId ≠ "" := by
  rw [validStatus, Bool.and_eq_true, decide_eq_true_eq] at hvalid
  intro hempty
  rw [hempty] at hvalid
  exact absurd hvalid.1.1 (by decide)

def Observed (schema : Schema Config Content) (journal : Journal Config) (status : Status)
    (w : World Config Content) : Prop :=
  status.revision ≤ w.core.revision ∧ status.revision < revisionBound ∧
    (status.contentHash = journal.prepared.targetHash →
      AllInert schema w ∧ schema.fingerprint w.core.content = journal.prepared.targetHash)

theorem fingerprint_occur (hi : AllInert schema w) (event : Event) :
    (event.occur schema w).core.content = w.core.content := by
  rcases occur_cases schema event w with ⟨request, hr, accepted, flight, _, heq⟩ |
    ⟨closed, socket, heq⟩
  · rw [heq]
    exact content_deliver_of_inert (hi request hr) accepted
  · rw [heq]

instance durable_observed (status : Status) : Lasts schema process
    (fun w => Pending schema journal w ∧ Observed schema journal status w) := by
  refine ⟨?_, fun _ hw => hw.1.1⟩
  rintro event w ⟨hw, hle, hlt, htarget⟩
  refine ⟨durable_pending.stable event w hw,
    Nat.le_trans hle (later_occur hw.1 event).1.le, hlt, ?_⟩
  intro heq
  obtain ⟨hi, hcontent⟩ := htarget heq
  refine ⟨hi.occur hw.1 event, ?_⟩
  change schema.fingerprint (event.occur schema w).core.content = _
  rw [fingerprint_occur hi event]
  exact hcontent

theorem allInert_of_target (hw : Pending schema journal w)
    (hcontent : schema.fingerprint w.core.content = journal.prepared.targetHash) :
    AllInert schema w := by
  intro request hr
  rcases hw.1.pending request hr with hi | ⟨journal', hj, rfl⟩
  · exact hi
  rw [hw.2, Option.some_inj] at hj
  subst hj
  obtain ⟨after, hafter, hhash⟩ := (hw.1.journal journal hw.2).target
  exact Or.inr ⟨after, hafter, hhash.trans hcontent.symm⟩

theorem safe_status (hw : Pending schema journal w) :
    Safe (network schema process) (Coherent schema)
    (fun status w => Pending schema journal w ∧ Observed schema journal status w)
    (fun _ => Pending schema journal) (ask .status) w := by
  apply safe_reading .status rfl (fun _ _ hw => hw) hw
  intro choice w status hw hok
  obtain ⟨rfl, hlt⟩ := validateStatus_ok (unlessFailed_ok hok)
  exact ⟨hw, Nat.le_refl _, hlt, fun heq => ⟨allInert_of_target hw heq, heq⟩⟩

theorem Coherent.performed (hw : Coherent schema w) {accepted : Bool} {core : Core Content}
    (hok : request.perform schema accepted w.core = .ok core)
    (hr : request.expected.revision < revisionBound) :
    Coherent schema { w with core := core } := by
  have hcore : deliver schema accepted request w.core = core := by rw [deliver, hok]; rfl
  obtain ⟨hl, hbounded⟩ := @later_deliver _ _ schema w.core request hw.bounded hr accepted
  rw [hcore] at hl hbounded
  exact hw.later hl hbounded (fun _ hr => hr)

theorem Coherent.sent (hw : Coherent schema w) {request : Request Config}
    (hle : request.expected.revision ≤ w.core.revision)
    (hlt : request.expected.revision < revisionBound) (hp : Inert schema w.core request ∨
      ∃ journal, w.disk.journal = some journal ∧
      request = .put journal.config journal.prepared.expected) :
    Coherent schema { w with flight := request :: w.flight } := by
  refine ⟨hw.bounded, ?_, ?_, hw.journal, hw.settled⟩
  · intro other ho
    rcases List.mem_cons.mp ho with rfl | ho
    · exact ⟨hle, hlt⟩
    · exact hw.flight other ho
  · intro other ho
    rcases List.mem_cons.mp ho with rfl | ho
    · exact hp
    · exact hw.pending other ho

theorem pending_of_send_error (hw : Pending schema journal w) {failure : Failure}
    (hle : request.expected.revision ≤ w.core.revision)
    (hlt : request.expected.revision < revisionBound)
    (hp : Inert schema w.core request ∨ request = .put journal.config journal.prepared.expected)
    (herr : (w.send schema request choice).1 = .error failure) :
    Pending schema journal (w.send schema request choice).2 := by
  rcases send_error herr with heq | heq | ⟨accepted, core, hok, heq⟩
  · rw [heq]
    exact hw
  · rw [heq]
    refine ⟨Coherent.sent hw.1 hle hlt ?_, hw.2⟩
    rcases hp with hi | hput
    · exact Or.inl hi
    · exact Or.inr ⟨journal, hw.2, hput⟩
  · rw [heq]
    exact ⟨Coherent.performed hw.1 hok hlt, hw.2⟩

theorem resolved_of_fence (hw : Pending schema journal w) {fenced : Status}
    (hlt : status.revision < revisionBound)
    (hok : (w.send schema (.fence status) choice).1 = .ok fenced) :
    Resolved schema journal (w.send schema (.fence status) choice).2 ∧
      journal.prepared.expected.revision <
      (w.send schema (.fence status) choice).2.core.revision := by
  obtain ⟨accepted, core, hperform, heq, _⟩ := send_ok hok
  have hw' : Pending schema journal { w with core := core } :=
    ⟨Coherent.performed hw.1 hperform hlt, hw.2⟩
  have hnext : w.core.revision < core.revision := by
    rcases perform_ok hperform with ⟨_, _, _, _, hput, _⟩ | ⟨_, ⟨_, _, rfl⟩ | ⟨_, _, _, hput, _⟩⟩
    · cases hput
    · rw [nextRevision_eq hw.1.bounded]
      exact Nat.lt_succ_self _
    · cases hput
  rw [heq]
  refine ⟨⟨hw', ?_⟩, Nat.lt_of_le_of_lt (hw.1.journal journal hw.2).reached hnext⟩
  intro request hr
  cases request with
  | fence expected => trivial
  | put config expected => exact Or.inl (Nat.lt_of_le_of_lt (hw.1.flight _ hr).1 hnext)

instance durable_fenced : Lasts schema process
    (fun w => Resolved schema journal w ∧
      journal.prepared.expected.revision < w.core.revision) := by
  refine ⟨?_, fun _ hw => hw.1.1.1⟩
  rintro event w ⟨hw, hlt⟩
  exact ⟨durable_resolved.stable event w hw, Nat.lt_of_lt_of_le hlt (later_occur hw.1.1 event).1.le⟩

theorem safe_fence (hw : Pending schema journal w ∧ Observed schema journal status w) :
    Safe (network schema process) (Coherent schema)
      (fun _ w => Resolved schema journal w ∧ journal.prepared.expected.revision < w.core.revision)
      (fun _ => Pending schema journal) (ask (.fence status)) w := by
  refine Safe.ask (Op.fence status)
    (P := fun w => Pending schema journal w ∧ Observed schema journal status w) hw ?_ ?_
  · intro choice w fenced hw hok
    exact resolved_of_fence hw.1 hw.2.2.1 hok
  · intro choice w failure hw herr
    exact pending_of_send_error hw.1 hw.2.1 hw.2.2.1 (Or.inl trivial) herr

def Proved (schema : Schema Config Content) (journal : Journal Config) (outcome : Outcome)
    (w : World Config Content) : Prop :=
  Resolved schema journal w ∧
    match outcome with
    | .unchanged => journal.prepared.expected.revision < w.core.revision
    | .applied => schema.fingerprint w.core.content = journal.prepared.targetHash

instance durable_proved (outcome : Outcome) :
    Lasts schema process (Proved schema journal outcome) := by
  refine ⟨?_, fun _ hw => hw.1.1.1⟩
  rintro event w ⟨hw, hp⟩
  refine ⟨durable_resolved.stable event w hw, ?_⟩
  cases outcome with
  | unchanged => exact Nat.lt_of_lt_of_le hp (later_occur hw.1.1 event).1.le
  | applied =>
    change schema.fingerprint (event.occur schema w).core.content = _
    rw [fingerprint_occur hw.2 event]
    exact hp

theorem safe_conclude {verdict : Verdict} (hw : Proved schema journal verdict.outcome w) :
    Leaves schema process (fun _ => Resolved schema journal)
    (conclude journal.prepared verdict) w := by
  apply Safe.seq (Q := fun _ => Resolved schema journal)
  · refine Safe.ask (Op.settle _ _) hw ?_ ?_
    · rintro choice w a ⟨⟨⟨hw, hj⟩, hi⟩, hp⟩ _
      refine ⟨⟨⟨hw.bounded, hw.flight, hw.pending, hw.journal, ?_⟩, hj⟩, hi⟩
      intro entry he
      rcases List.mem_cons.mp he with rfl | he
      · exact hp
      · exact hw.settled entry he
    · intro choice w failure _ herr
      cases herr
  · intro _ w hw
    exact Safe.ret hw

theorem safe_apply (hw : Pending schema journal w) :
    Safe (network schema process) (Coherent schema) (fun _ => Pending schema journal)
    (fun _ => Pending schema journal)
      (ask (.apply journal.config journal.prepared.expected)) w := by
  refine Safe.ask (Op.apply _ _) hw ?_ ?_
  · intro choice w receipt hw hok
    have hs := hw.1.journal journal hw.2
    obtain ⟨accepted, core, hperform, heq, _⟩ := send_ok hok
    change Pending schema journal (w.send schema
      (.put journal.config journal.prepared.expected) choice).2
    rw [heq]
    exact ⟨Coherent.performed hw.1 hperform hs.bounded, hw.2⟩
  · intro choice w failure hw herr
    have hs := hw.1.journal journal hw.2
    exact pending_of_send_error hw hs.reached hs.bounded (Or.inr rfl) herr

end NodeManager.FencePrograms
