import NodeManager.QueueBooks
import NodeManager.WorkerOutline

namespace NodeManager.QueueAccounting

open Dictionary Programs WriteQueue TaskQueue QueueBooks WorkerOutline

variable {Callback Value Error : Type} {settings : Settings} {q q' : Queue Callback Value}
  {left : List TaskId} {hands items rest : List (Item Callback)} {item : Item Callback}
  {ending : Ending Value Error}

/-- The worker holds these tasks. Every other task is in the queue, or one of those that were
left. -/
structure Holding (settings : Settings) (left : List TaskId) (hands : List (Item Callback))
    (q : Queue Callback Value) : Prop where
  books : Books settings q
  held : ∀ item ∈ hands, q.live.get? item.taskId = some item
  taken : ∀ item ∈ hands, ∀ other ∈ q.pending, item.taskId < other.taskId
  nodup : (hands.map (·.taskId)).Nodup
  order : ∀ batch, .tried batch ∈ q.log → ∀ a ∈ batch, ∀ b ∈ hands, Shares a b → a.taskId ≤ b.taskId
  all : ∀ id ∈ q.live.keys, (∃ item ∈ q.pending, item.taskId = id) ∨
    (∃ item ∈ hands, item.taskId = id) ∨ id ∈ left

theorem Books.holding (h : Books settings q) : Holding settings q.live.keys [] q :=
  ⟨h, nofun, nofun, List.nodup_nil, fun _ _ _ _ _ hb => (List.not_mem_nil hb).elim,
    fun _ hid => .inr (.inr hid)⟩

theorem Holding.same (h : Holding settings left hands q) (hs : Same q q') :
    Holding settings left hands q' where
  books := h.books.same hs
  held := by
    rw [hs.live]
    exact h.held
  taken := by
    rw [hs.pending]
    exact h.taken
  nodup := h.nodup
  order := by
    rw [hs.log]
    exact h.order
  all := by
    rw [hs.live, hs.pending]
    exact h.all

theorem Holding.enqueue (h : Holding settings left hands q) {submission : Submission Callback}
    (hnew : q.known (submission.key.map (·.text)) = none)
    (hunits : q.units + submission.units ≤ settings.capacity)
    (hbytes : q.bytes + submission.size ≤ settings.byteCapacity) :
    Holding settings left hands (q.enqueue submission) := by
  have hfresh : ∀ item ∈ hands, item.taskId < q.fresh :=
    fun item hitem => (h.books.items _ item (h.held item hitem)).2
  refine ⟨h.books.enqueue hnew hunits hbytes, fun item hitem => ?_,
    fun item hitem other hother => ?_, h.nodup, ?_, ?_⟩
  · rw [Queue.enqueue, Dict.get?_set, if_neg (hfresh item hitem).ne]
    exact h.held item hitem
  · obtain hother | hother := List.mem_append.mp hother
    · exact h.taken item hitem other hother
    · cases List.mem_singleton.mp hother
      exact hfresh item hitem
  · intro batch hlog
    obtain hlog | hlog := List.mem_cons.mp hlog
    · cases hlog
    · exact h.order batch hlog
  · intro id hid
    obtain rfl | hid := Dict.mem_keys_set.mp hid
    · exact .inl ⟨_, List.mem_append_right _ (List.mem_singleton.mpr rfl), rfl⟩
    · exact (h.all id hid).imp_left (.imp fun _ => .imp_left (List.mem_append_left _))

theorem Holding.occur (h : Holding settings left hands q) (event : Event Callback) :
    Holding settings left hands (occur settings event q) := by
  obtain hupkept | ⟨submission, heq, hnew, -, hunits, hbytes⟩ := occur_cases settings event q
  · exact h.same (h.books.tables.upkept hupkept)
  · rw [heq]
    exact h.enqueue hnew hunits hbytes

theorem Books.occur (h : Books settings q) (event : Event Callback) :
    Books settings (occur settings event q) :=
  ((Books.holding h).occur event).books

theorem Holding.finish (h : Holding settings left (item :: hands) q) (ending : Ending Value Error) :
    Holding settings left hands (q.finish item ending) := by
  have hbooks := h.books.finish ending (h.held item List.mem_cons_self)
    (h.taken item List.mem_cons_self)
    (fun batch hlog a ha => h.order batch hlog a ha item List.mem_cons_self)
  have hother : ∀ other ∈ hands, other.taskId ≠ item.taskId := fun other hmem heq =>
    (List.nodup_cons.mp h.nodup).1 (List.mem_map.mpr ⟨other, hmem, heq⟩)
  refine ⟨hbooks, fun other hmem => ?_,
    fun other hmem => h.taken other (List.mem_cons_of_mem item hmem),
    (List.nodup_cons.mp h.nodup).2, fun batch hlog a ha b hb => ?_, fun id hid => ?_⟩
  · rw [Queue.finish, Dict.get?_erase, if_neg (hother other hmem)]
    exact h.held other (List.mem_cons_of_mem item hmem)
  · exact h.order batch ((List.mem_cons.mp hlog).resolve_left (by simp)) a ha b
      (List.mem_cons_of_mem item hb)
  obtain ⟨hne, hid⟩ := Dict.mem_keys_erase.mp hid
  obtain hpending | ⟨other, hmem, heq⟩ | hleft := h.all id hid
  · exact .inl hpending
  · obtain rfl | hmem := List.mem_cons.mp hmem
    · exact absurd heq.symm hne
    · exact .inr (.inl ⟨other, hmem, heq⟩)
  · exact .inr (.inr hleft)

theorem Separate.eq_of_shares (h : Separate hands) {a b : Item Callback} (ha : a ∈ hands)
    (hb : b ∈ hands) (hshares : Shares a b) : a = b := by
  have hsymm : Std.Symm (fun a b : Item Callback => ¬Shares a b) :=
    ⟨fun _ _ hab ⟨key, hkb, hka⟩ => hab ⟨key, hka, hkb⟩⟩
  by_contra hne
  exact List.Pairwise.forall h ha hb hne hshares

theorem Holding.try (h : Holding settings left hands q) (hseparate : Separate hands)
    (hsub : items.Sublist hands) :
    Holding settings left hands (q.tried items) where
  books := h.books.try (fun item hitem => h.held item (hsub.subset hitem)) (hseparate.sublist hsub)
    (fun item hitem => h.taken item (hsub.subset hitem))
    (fun batch hlog a ha b hb => h.order batch hlog a ha b (hsub.subset hb))
  held := h.held
  taken := h.taken
  nodup := h.nodup
  order batch hlog a ha b hb hshares := by
    obtain hlog | hlog := List.mem_cons.mp hlog
    · cases hlog
      rw [Separate.eq_of_shares hseparate (hsub.subset ha) hb hshares]
    · exact h.order batch hlog a ha b hb hshares
  all := h.all

theorem Holding.take (h : Holding settings left [] q) {waiting : List (Item Callback)}
    (happend : hands ++ waiting = q.pending) :
    Holding settings left hands { q with pending := waiting, busy := true } where
  books := h.books.take (happend ▸ List.sublist_append_right hands waiting)
  held item hitem := h.books.queued item (happend ▸ List.mem_append_left waiting hitem)
  taken item hitem other hother := by
    have hordered := h.books.ordered
    rw [← happend, List.pairwise_append] at hordered
    exact hordered.2.2 item hitem other hother
  nodup := by
    have hordered := h.books.ordered
    rw [← happend, List.pairwise_append] at hordered
    exact List.pairwise_map.mpr (hordered.1.imp (fun hlt => hlt.ne))
  order batch hlog a ha b hb _ :=
    ((h.books.tried batch hlog a ha).2 b (happend ▸ List.mem_append_left waiting hb)).le
  all id hid := by
    obtain ⟨item, hitem, heq⟩ | ⟨item, hitem, -⟩ | hleft := h.all id hid
    · rw [← happend] at hitem
      obtain hitem | hitem := List.mem_append.mp hitem
      · exact .inr (.inl ⟨item, hitem, heq⟩)
      · exact .inl ⟨item, hitem, heq⟩
    · cases hitem
    · exact .inr (.inr hleft)

theorem separate_fill (batchSize : Nat) (units size : Nat) (pending : List (Item Callback))
    (h : Separate items) :
    Separate (fill batchSize items units size (items.flatMap (·.keys)) pending).1 := by
  induction pending generalizing items units size with
  | nil => exact h
  | cons item pending ih =>
    rw [fill]
    split
    · exact h
    next hbars =>
      have hnext : Separate (items ++ [item]) := by
        refine List.pairwise_append.mpr ⟨h, List.pairwise_singleton _ _, ?_⟩
        rintro other hother _ hitem ⟨key, hkey, hkey'⟩
        cases List.mem_singleton.mp hitem
        have hempty : items.isEmpty = false := by
          simpa using List.ne_nil_of_mem hother
        have hany : (items.flatMap (·.keys)).any (· ∈ item.keys) = true :=
          List.any_eq_true.mpr ⟨key, List.mem_flatMap.mpr
            ⟨other, hother, hkey⟩, by simpa using hkey'⟩
        simp [bars, hempty, hany] at hbars
      have hkeys : items.flatMap (·.keys) ++ item.keys =
        (items ++ [item]).flatMap (·.keys) := by simp
      rw [hkeys]
      exact ih (units + item.units) (size + item.size) hnext

theorem separate_collect (batchSize : Nat) (pending : List (Item Callback)) :
    Separate (collect batchSize pending).1 := separate_fill batchSize 0 0 pending List.Pairwise.nil

abbrev Keeps {α : Type} (settings : Settings) (Q : α → Queue Callback Value → Prop)
    (E : Failure Error → Queue Callback Value → Prop) (p : Writer Callback Value Error α)
    (q : Queue Callback Value) : Prop :=
  Safe (queue settings) (Books settings) Q E p q

def Failed (settings : Settings) (_ : Failure Error) (q : Queue Callback Value) : Prop :=
  Books settings q ∧ q.broken = true

instance durable_holding : Stays Error settings (Books settings)
    (Holding settings left hands : Queue Callback Value → Prop) :=
  ⟨fun event _ h => h.occur event, fun _ h => h.books⟩

instance durable_failed (failure : Failure Error) :
    Stays Error settings (Books settings)
    (Failed settings failure : Queue Callback Value → Prop) := by
  refine ⟨fun event q h => ⟨Books.occur h.1 event, ?_⟩, fun _ h => h.1⟩
  obtain hupkept | ⟨submission, heq, -⟩ := occur_cases settings event q
  · exact (h.1.tables.upkept hupkept).broken h.2
  · exact (congrArg Queue.broken heq).trans h.2

theorem Books.break (h : Books settings q) (failure : Failure Error) :
    Failed settings failure { q with broken := true } :=
  ⟨h.same { Same.refl q with broken := fun _ => rfl }, rfl⟩

def InHand (settings : Settings) (items rest : List (Item Callback))
    (q : Queue Callback Value) : Prop :=
  Holding settings [] (items ++ rest) q ∧ Separate (items ++ rest)

instance durable_inHand : Stays Error settings (Books settings)
    (InHand settings items rest : Queue Callback Value → Prop) :=
  Durable.and_pure _

theorem InHand.same (h : InHand settings items rest q) (hs : Same q q') :
    InHand settings items rest q' :=
  ⟨h.1.same hs, h.2⟩

theorem safe_finish (h : InHand settings (item :: items) rest q) :
    Keeps settings (fun _ => InHand settings items rest) (Failed settings)
    (WriteQueue.finish item ending) q :=
  safe_written (.finish item ending) (fun _ _ => rfl) h
    (fun _ h => ⟨h.1.finish ending, (List.pairwise_cons.mp h.2).2⟩)
    (fun error _ h => Books.break h.1.books (.exception error))

abbrev Attempts {α : Type} (Error : Type) (settings : Settings) (items rest : List (Item Callback))
    (p : Writer Callback Value Error α) (q : Queue Callback Value) : Prop :=
  Keeps settings (fun _ => InHand settings items rest)
    (Refused (InHand settings) (InHand settings) items rest) p q

section

variable (h : InHand settings items rest q)
include h

theorem safe_same (op : Op Callback Value Error)
    (hsame : ∀ choice (q : Queue Callback Value), Same q (respond settings choice op q).2)
    (herr : ∀ choice (q : Queue Callback Value) index error,
      (respond settings choice op q).1 ≠ .error (.batchRejected index error)) :
      Attempts Error settings items rest (ask op) q := by
  apply Safe.ask op h
  · exact fun choice q _ h _ => h.same (hsame choice q)
  intro choice q failure h hfail
  cases failure with
  | batchRejected index error => exact absurd hfail (herr choice q index error)
  | recoveryRequired message => exact h.same (hsame choice q)
  | exception error => exact h.same (hsame choice q)

theorem safe_mutate {batch : Batch} :
    Keeps settings (fun staged q => InHand settings items rest q ∧
      staged.results.length = items.length) (Refused (InHand settings) (InHand settings) items rest)
      (ask (.mutate batch items) : Writer Callback Value Error (Staged Value)) q := by
  refine Safe.ask_replies (Op.mutate batch items) h (fun choice q h => ?_)
  have htried : InHand settings items rest (q.tried items) :=
    ⟨h.1.try h.2 (List.sublist_append_left items rest), h.2⟩
  change Replies _ _ (mutate choice batch items q)
  unfold mutate
  split
  · exact h
  cases choice.course with
  | proceed =>
    cases choice.changed with
    | true => exact ⟨htried.same { Same.refl _ with }, List.length_map _⟩
    | false => exact ⟨htried.same { Same.refl _ with }, List.length_map _⟩
  | fail error => exact htried
  | refuse message => exact htried
  | uncertain message => exact htried
  | reject index error =>
    dsimp only
    split
    next hindex => exact ⟨htried, hindex⟩
    · exact htried

theorem safe_checkMode : Attempts Error settings items rest (ask .checkMode) q :=
  safe_same h .checkMode (fun _ q => Same.refl q) (fun _ _ _ _ => nofun)

theorem safe_begin (ids : List TaskId) :
    Attempts Error settings items rest (ask (.begin ids)) q := by
  refine safe_same h (.begin ids) (fun choice q => ?_) (fun choice q index error => ?_)
  · simp only [respond, written]
    split
    · exact Same.refl q
    · exact same_begin ids q
  · simp only [respond, written]
    split <;> simp

variable (t : Transaction Value)

theorem safe_openJournal : Attempts Error settings items rest (ask (.openJournal t)) q := by
  refine safe_same h (.openJournal t) (fun choice q => ?_) (fun choice q index error => ?_)
  · simp only [respond, openJournal]
    split
    all_goals exact { Same.refl q with }
  · simp only [respond, openJournal]
    split <;> simp

theorem safe_writeRecords : Attempts Error settings items rest (ask (.writeRecords t)) q := by
  refine safe_same h (.writeRecords t) (fun choice q => ?_) (fun choice q index error => ?_)
  · simp only [respond, written]
    split
    all_goals exact { Same.refl q with }
  · simp only [respond, written]
    split <;> simp

theorem safe_settle : Attempts Error settings items rest (ask (.settle t)) q := by
  refine safe_same h (.settle t) (fun choice q => ?_) (fun choice q index error => ?_)
  · simp only [respond, settle]
    split
    · exact (same_resolve true q).trans { Same.refl _ with }
    · exact (same_resolve false q).trans { Same.refl _ with }
    · exact (same_resolve false q).trans { Same.refl _ with }
    · exact { Same.refl q with }
    · exact { Same.refl q with }
  · simp only [respond, settle]
    split <;> simp

theorem safe_publish : Attempts Error settings items rest (publish t) q := by
  apply Safe.seq (safe_openJournal h t)
  intro _ q h
  apply Safe.seq (safe_writeRecords h t).attempt
  intro outcome q h
  match outcome, h with
  | .ok _, h => exact safe_settle h t
  | .error (.batchRejected _ _), h => exact safe_settle h.1 t
  | .error (.recoveryRequired _), h => exact safe_settle h t
  | .error (.exception _), h => exact safe_settle h t

theorem safe_apply :
    Keeps settings (fun results q => InHand settings items rest q ∧ results.length = items.length)
      (Refused (InHand settings) (InHand settings) items rest)
      (apply items : Writer Callback Value Error (List Value)) q := by
  apply Safe.seq (safe_checkMode h)
  intro mode q h
  cases mode with
  | false => exact Safe.raise h
  | true =>
    apply Safe.seq (safe_begin h _)
    intro batch q h
    apply Safe.seq (safe_mutate h)
    intro staged q h
    cases staged.changed with
    | false => exact Safe.ret h
    | true =>
      apply Safe.seq (safe_publish h.1 _)
      exact fun _ q hq => Safe.ret ⟨hq, h.2⟩

end

theorem Failed.same {failure : Failure Error} (h : Failed settings failure q) (hs : Same q q') :
    Failed settings failure q' := ⟨h.1.same hs, hs.broken h.2⟩

theorem Holding.free (h : Holding settings [] [] q) :
    Holding settings [] [] { q with busy := false } := by
  have hqueued : ∀ id ∈ q.live.keys, ∃ item ∈ q.pending, item.taskId = id := by
    intro id hid
    obtain hpending | ⟨_, hitem, -⟩ | hleft := h.all id hid
    · exact hpending
    · cases hitem
    · cases hleft
  exact { h with
    books := { h.books with tables := { h.books.tables with }, idle := fun _ => hqueued } }

theorem accountingOutline (settings : Settings) :
    Outline settings (Books settings : Queue Callback Value → Prop)
    (Failed settings : Failure Error → Queue Callback Value → Prop)
      (InHand settings) (InHand settings) (InHand settings) where
  split h := by
    rw [InHand, List.append_assoc] at h
    exact h
  next h := h
  settled h := h
  lost h := h
  apply := safe_apply
  finish _ := safe_finish
  succeed _ := safe_finish
  doubt _ := safe_finish
  pause h := h.same { Same.refl _ with }
  clean q batch h := h.same (same_cleanupReceipt q batch)
  failing _ q batch h := h.same (same_cleanupReceipt q batch)
  broken error _ h := Books.break h (.exception error)
  awake _ h := ⟨h.1.free, List.Pairwise.nil⟩
  collect q h := by
    have htaken := h.1.take (collect_append settings.batchSize q.pending)
    rw [InHand, List.append_nil]
    exact ⟨htaken, separate_collect _ _⟩

/-- The queue is closed and nothing comes into it any more; if a write has failed, it has. -/
structure Drained (settings : Settings) (left : List TaskId) (failed : Prop)
    (hands : List (Item Callback)) (q : Queue Callback Value) :
    Prop extends Holding settings left hands q where
  closed : q.closed = true
  pending : q.pending = []
  broken : failed → q.broken = true

variable {failed : Prop}

instance durable_drained : Stays Error settings (Books settings)
    (Drained settings left failed hands : Queue Callback Value → Prop) := by
  refine ⟨fun event q h => ?_, fun _ h => h.books⟩
  obtain hupkept | ⟨_, -, -, hopen, -⟩ := occur_cases settings event q
  · have hsame := h.books.tables.upkept hupkept
    exact ⟨h.toHolding.same hsame, hsame.closed h.closed, hsame.pending.trans h.pending,
      hsame.broken ∘ h.broken⟩
  · cases hopen.symm.trans h.closed

theorem safe_shutdown (h : Holding settings left [] q) (hbroken : failed → q.broken = true) :
    Keeps settings (fun _ => Drained settings left failed []) (Failed settings)
      (shutdown : Writer Callback Value Error Unit) q := by
  have hstays : Stays Error settings (Books settings)
      (fun q : Queue Callback Value => Holding settings left [] q ∧
        (failed → q.broken = true)) := by
    refine ⟨fun event q h => ⟨h.1.occur event, fun hfailed => ?_⟩, fun _ h => h.1.books⟩
    exact ((durable_failed (.exception ())).stable event q ⟨h.1.books, h.2 hfailed⟩).2
  have hdrain : Keeps settings (fun items => Drained settings left failed items) (Failed settings)
      (ask .drain : Writer Callback Value Error (List (Item Callback))) q := by
    refine safe_effect .drain (R := fun q => Holding settings left [] q ∧
      (failed → q.broken = true)) (fun _ _ => rfl) ⟨h, hbroken⟩ (fun q h => ⟨?_, rfl, rfl, h.2⟩)
    exact (h.1.take (List.append_nil q.pending)).same { Same.refl _ with closed := fun _ => rfl }
  apply Safe.seq hdrain
  intro items q h
  refine Safe.forEach (I := fun items => Drained settings left failed items) h
    (fun item rest q _ h => ?_)
  exact safe_written (.finish item _) (fun _ _ => rfl) h
    (fun _ h => ⟨h.finish _, h.closed, h.pending, h.broken⟩)
    (fun error _ h => Books.break h.books (.exception error))

theorem safe_runWorker (n : Nat) (h : Holding settings [] [] q) :
    Keeps settings (fun _ => Drained settings [] False []) (Failed settings)
      (runWorker n : Writer Callback Value Error Unit) q := by
  apply Safe.ensure (Q := fun _ => InHand settings [] []) (E := Failed settings)
  · apply Safe.handle ((accountingOutline settings).safe_rounds n ⟨h, List.Pairwise.nil⟩)
    intro failure q h
    have hstop : Keeps settings (fun _ => Failed settings failure) (Failed settings)
        (ask .stop : Writer Callback Value Error Unit) q :=
      safe_effect .stop (fun _ _ => rfl) h
        (fun q h => h.same { Same.refl q with closed := fun _ => rfl })
    apply Safe.seq hstop
    exact fun _ q h => Safe.raise h
  · exact fun _ q h => safe_shutdown h.1 False.elim
  · intro failure q h
    exact (safe_shutdown (Books.holding h.1) (fun _ : True => h.2)).mono (fun _ h => h)
      (fun _ _ h => ⟨h.books, h.broken trivial⟩) (fun _ _ h => h)

theorem Books.opened (h : Books settings q) (updated : TaskId → Nat) :
    Holding settings [] [] (q.crash.recoverReceipts settings updated) := by
  have hcrash : Holding settings [] [] q.crash :=
    ⟨h.crash, nofun, nofun, List.nodup_nil, fun _ _ _ _ _ hb => (List.not_mem_nil hb).elim, nofun⟩
  exact hcrash.same (hcrash.books.tables.upkept (upkept_recoverReceipts settings updated _))

theorem books_lives (past : List (Life Callback Value Error settings)) :
    Books settings (lives past) := by
  have hrun : ∀ q, Books settings q →
      Books settings (Runs.run (fun life q => (life.stopped q).2) past q) := by
    induction past with
    | nil => exact fun _ h => h
    | cons life past ih =>
      exact fun q h => ih _ (safe_runWorker life.rounds (Books.opened h life.updated)
        life.schedule).1
  exact hrun Queue.empty books_empty

/-- An accepted task is held by this process, or finished, or was held by a process that has ended;
and only one of these. -/
structure Accounted (q : Queue Callback Value) (id : TaskId) : Prop where
  somewhere : id ∈ q.live.keys ∨ Finished q.log id ∨ id ∈ q.lost
  unfinished : id ∈ q.live.keys ∨ id ∈ q.lost → ¬Finished q.log id
  kept : id ∈ q.live.keys → id ∉ q.lost

structure Bound (settings : Settings) (q : Queue Callback Value) (item : Item Callback)
    (key : String) : Prop where
  unchanged : ∀ submission : Submission Callback, submission.key.map (·.text) = some key →
    (q.submit settings submission).2 = q
  answered : ∀ submission : Submission Callback, submission.key.map (·.text) = some key →
    ∀ id replayed, (q.submit settings submission).1 = .ok (id, replayed) →
      id = item.taskId ∧ replayed = true ∧ submission.fingerprint = item.fingerprint

structure Sound (settings : Settings) (q : Queue Callback Value) : Prop where
  units : q.units = ((q.live.entries.map (·.2.units)).sum : Nat)
  bytes : q.bytes = ((q.live.entries.map (·.2.size)).sum : Nat)
  bounded : 0 ≤ q.units ∧ q.units ≤ settings.capacity ∧ 0 ≤ q.bytes ∧
    q.bytes ≤ settings.byteCapacity
  accounted : ∀ item key, .accepted item key ∈ q.log → Accounted q item.taskId
  chronicle : q.log.Pairwise Follows
  separate : ∀ items, .tried items ∈ q.log → Separate items
  idle : q.busy = false → q.pending = [] → q.live.entries = []
  bound : ∀ item key, .accepted item (some key) ∈ q.log → Bound settings q item key
  archives : ∀ updated, ∃ archived, q.archiveHistory settings updated = .ok archived

theorem Books.bound (h : Books settings q) {key : String}
    (hlog : .accepted item (some key) ∈ q.log) :
    Bound settings q item key := by
  obtain ⟨row, hknown, hprint⟩ := h.tables.known (h.recorded item (some key) hlog)
  refine ⟨fun submission hkey => ?_, fun submission hkey id replayed hok => ?_⟩
  · simp only [Queue.submit, hkey, hknown]
    split
    · rfl
    · split <;> rfl
  simp only [Queue.submit, hkey, hknown] at hok
  split at hok
  · cases hok
  split at hok
  · cases hok
  next hsame =>
    cases hok
    exact ⟨rfl, rfl, (not_not.mp hsame).symm.trans hprint⟩

theorem Books.sound (h : Books settings q) : Sound settings q where
  units := h.units
  bytes := h.bytes
  bounded := ⟨h.units ▸ Int.natCast_nonneg _, h.capacity, h.bytes ▸ Int.natCast_nonneg _,
    h.byteCapacity⟩
  accounted item key hlog := ⟨h.accounted item key hlog, h.unfinished item.taskId,
    h.kept item.taskId⟩
  chronicle := h.chronicle
  separate := h.separate
  idle hbusy hpending := by
    refine List.eq_nil_iff_forall_not_mem.mpr (fun e he => ?_)
    obtain ⟨item, hitem, -⟩ := h.idle hbusy e.1 (List.mem_map_of_mem he)
    rw [hpending] at hitem
    cases hitem
  bound _ _ hlog := Books.bound h hlog
  archives updated := by
    obtain ⟨archived, hok, -⟩ := @Tables.archiveHistory _ _ settings _ h.tables updated
    exact ⟨archived, hok⟩

/-- However the writers of a node run, one after the other, and wherever the last one is stopped:
the counters are exact and bounded, every accepted task is finished once, keys are bound for good
and tasks for one user go one after the other. When the worker has ended, with its last writes, no
task is left. -/
theorem write_queue_sound (past : List (Life Callback Value Error settings))
    (life : Life Callback Value Error settings) :
    Sound settings (life.stopped (lives past)).2 ∧
      ((∃ a, (life.stopped (lives past)).1 = .ret a) ∨
        (∃ e, (life.stopped (lives past)).1 = .raise e) →
        (life.stopped (lives past)).2.broken = false →
        (life.stopped (lives past)).2.live.entries = []) := by
  obtain ⟨hbooks, hended, hraised⟩ :=
    safe_runWorker life.rounds (Books.opened (books_lives past) life.updated) life.schedule
  refine ⟨Books.sound hbooks, ?_⟩
  rintro (⟨a, hret⟩ | ⟨e, hraise⟩) hunbroken
  · have hdrained := hended a hret
    refine List.eq_nil_iff_forall_not_mem.mpr (fun e he => ?_)
    obtain ⟨item, hitem, -⟩ | ⟨item, hitem, -⟩ | hleft := hdrained.all e.1 (List.mem_map_of_mem he)
    · rw [hdrained.pending] at hitem
      cases hitem
    · cases hitem
    · cases hleft
  · cases hunbroken.symm.trans (hraised e hraise).2

def submission (key user : String) : Submission Unit :=
  ⟨(), some (.task key), "f", 1, 1, false, [user]⟩

def twoTasks : Life Unit Nat Unit { hotHistory := 1 } where
  updated := id
  rounds := 2
  schedule := [.env (.submit (submission "a" "u")), .env (.submit (submission "b" "u"))] ++
    List.replicate 24 (.call ⟨.proceed, id, true⟩) ++ [.env (.archiveHistory id)]

-- They are tried one after the other; the first one is archived, and its key still answers with it.
example : ((twoTasks.stopped Queue.empty).2.archive.keys,
    (twoTasks.stopped Queue.empty).2.tasks.keys,
    ((twoTasks.stopped Queue.empty).2.submit { hotHistory := 1 } (submission "a" "u")).1.toOption) =
    ([0], [1], some (0, true)) := by decide

end NodeManager.QueueAccounting
