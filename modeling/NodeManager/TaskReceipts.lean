import NodeManager.ReceiptPrograms

namespace NodeManager.TaskReceipts

open Programs WriteQueue TaskQueue ReceiptInvariant ReceiptPrograms WorkerOutline

variable {Callback Value Error : Type} {settings : Settings} {w v : Queue Callback Value}

theorem owned_of_pending (hw : Consistent w) {taken left : List (Item Callback)}
    (hsplit : taken ++ left = w.pending) (hpending : v.pending = left)
    (hrows : ∀ id, v.row id = w.row id) (hlive : v.live = w.live) (hj : v.journal = w.journal)
    (hc : v.committed = w.committed) (hv : Consistent v) : Owned Uncommitted taken [] v := by
  have hmem : ∀ item ∈ taken, item ∈ w.pending :=
    fun item hitem => hsplit ▸ List.mem_append_left left hitem
  have hnodup := hw.pending.1
  rw [← hsplit, List.map_append, List.nodup_append] at hnodup
  refine ⟨hv, by rw [List.append_nil]; exact hnodup.1, ?_, ?_, nofun⟩
  · intro item hitem
    rw [List.append_nil] at hitem
    obtain ⟨hl, row, hrow, -, hf⟩ := hw.pending.2 item (hmem item hitem)
    refine ⟨hlive.symm ▸ hl, ?_, row, (hrows _).trans hrow, hf⟩
    rw [hpending]
    intro other hother heq
    exact hnodup.2.2 _ (List.mem_map.mpr ⟨item, hitem, rfl⟩) _
      (List.mem_map.mpr ⟨other, hother, rfl⟩) heq.symm
  · intro item hitem
    obtain ⟨-, row, hrow, hqueued, -⟩ := hw.pending.2 item (hmem item hitem)
    refine lasting_uncommitted.same hj hc ⟨?_, ?_⟩
    · intro t ht
      by_contra hsome
      obtain ⟨receipt, hget⟩ := Option.ne_none_iff_exists'.mp hsome
      obtain ⟨row', hrow', hflight, -⟩ := hw.journal t ht _ receipt hget
      rw [hrow, Option.some.injEq] at hrow'
      rw [← hrow', hqueued] at hflight
      rcases hflight with h | h <;> cases h
    · intro c hc hchanged hid
      obtain ⟨row', hrow', hstate⟩ := hw.kept c hc hchanged _ hid
      rw [hrow, Option.some.injEq] at hrow'
      rw [← hrow', hqueued] at hstate
      rcases hstate with h | ⟨h | h, -⟩ <;> cases h

theorem owned_nil (hw : Consistent w) : Owned Uncommitted [] [] w :=
  ⟨hw, List.nodup_nil, nofun, nofun, nofun⟩

theorem receiptOutline (settings : Settings) :
    Outline settings (Consistent : Queue Callback Value → Prop)
    (fun (_ : Failure Error) => Consistent)
      (Owned Uncommitted) (Owned Committed) (Owned (fun _ _ => True)) where
  split := Owned.split
  next := Owned.next
  settled := Owned.drop
  lost := Owned.drop
  apply := safe_apply
  finish hstate := safe_finish (fits_uncommitted hstate)
  succeed _ := safe_finish fits_committed
  doubt _ := safe_finish fits_unknown
  pause ho := ho.frame { ho.consistent with } { Frame.refl _ with }
  clean w batch ho := ho.frame (ho.consistent.cleanupReceipt batch) (frame_cleanupReceipt w batch)
  failing _ _ batch hw := hw.cleanupReceipt batch
  broken _ _ hw := { hw with }
  awake w ho := owned_nil { ho.consistent with }
  collect w ho := by
    have hw := ho.consistent
    have happend := collect_append settings.batchSize w.pending
    have hleft : (collect settings.batchSize w.pending).2.Sublist w.pending := by
      conv_rhs => rw [← happend]
      exact List.sublist_append_right _ _
    refine owned_of_pending hw happend rfl (fun _ => rfl) rfl rfl rfl { hw with
      pending := ⟨?_, ?_⟩ }
    · exact hw.pending.1.sublist (hleft.map _)
    · exact fun item hitem => hw.pending.2 item (hleft.subset hitem)

theorem safe_shutdown (hw : Consistent w) : Leaves Error settings Consistent shutdown w := by
  have hdrain : Keeps settings (fun items => Owned Uncommitted items [])
      (fun (_ : Failure Error) => Consistent) (ask .drain) w :=
    safe_effect .drain (fun _ _ => rfl) hw
      (fun w hw => owned_of_pending hw (List.append_nil _) rfl (fun _ => rfl) rfl rfl rfl
        { hw with pending := ⟨List.nodup_nil, nofun⟩ })
  apply Safe.seq hdrain
  intro items w ho
  exact ((receiptOutline settings).safe_finishAll TaskState.noConfusion ho).mono (fun _ hw => hw)
    (fun _ _ ho => ho.consistent) (fun _ _ hw => hw)

theorem safe_runWorker (n : Nat) (hw : Consistent w) :
    Leaves Error settings Consistent (runWorker n) w := by
  apply Safe.ensure (Q := fun _ => Consistent) (E := fun _ => Consistent)
  · have hrounds : Leaves Error settings Consistent (rounds n) w :=
      ((receiptOutline settings).safe_rounds n (owned_nil hw)).mono (fun _ hw => hw)
        (fun _ _ ho => ho.consistent) (fun _ _ hw => hw)
    apply Safe.handle hrounds
    intro failure w hw
    have hstop : Leaves Error settings Consistent (ask .stop) w :=
      safe_effect .stop (fun _ _ => rfl) hw (fun _ hw => { hw with })
    apply Safe.seq hstop
    exact fun _ w hw => Safe.raise hw
  · exact fun _ w hw => safe_shutdown hw
  · exact fun _ w hw => safe_shutdown hw

theorem safe_recoverReceipts (hw : Consistent w) :
    Leaves Error settings Consistent recoverReceipts w := by
  have hreconcile : Leaves Error settings Consistent (ask .reconcileRows) w :=
    safe_written .reconcileRows (fun _ _ => rfl) hw (fun w hw => (hw.upkept (upkept_reconcileRows settings w)).1)
      (fun _ _ hw => hw)
  apply Safe.seq hreconcile
  intro batches w hw
  cases batches with
  | none => exact Safe.ret hw
  | some batches =>
    apply Safe.seq (safe_cleanupReceipts (fun _ _ hw => { hw with })
      (fun _ batch hw => hw.cleanupReceipt batch) batches hw)
    intro _ w hw
    exact safe_effect .resume (fun _ _ => rfl) hw (fun _ hw => { hw with })

theorem recoverWal_cases (choice : Choice Value Error) (w : Queue Callback Value) :
    (recoverWal choice w).2 = w ∨ ∃ applied, (recoverWal choice w).2 = w.resolve applied := by
  unfold recoverWal
  split
  · exact .inr ⟨true, rfl⟩
  · exact .inr ⟨false, rfl⟩
  · exact .inr ⟨false, rfl⟩
  · exact .inl rfl
  · exact .inl rfl

theorem safe_lifetime (n : Nat) (hw : Consistent w) :
    Leaves Error settings Consistent (lifetime n) w := by
  have hrecover : Leaves Error settings Consistent (ask .recoverWal) w := by
    refine Safe.ask_leaving Op.recoverWal hw (fun choice w hw => ?_)
    change Consistent (recoverWal choice w).2
    rcases recoverWal_cases choice w with h | ⟨applied, h⟩
    · rwa [h]
    · rw [h]
      exact hw.resolve applied
  apply Safe.seq hrecover
  intro _ w hw
  apply Safe.seq (safe_recoverReceipts hw)
  exact fun _ w hw => safe_runWorker n hw

abbrev Life (Callback Value Error : Type) (settings : Settings) :=
  Nat × List (Action (queue settings : System (Queue Callback Value) (@Answer Callback Value Error)
    (Failure Error)))

def live (settings : Settings) (life : Life Callback Value Error settings)
    (w : Queue Callback Value) : Queue Callback Value :=
  session (queue settings) (lifetime life.1, life.2) w.crash

theorem consistent_lives (lives : List (Life Callback Value Error settings)) (hw : Consistent w) :
    Consistent (Runs.run (live settings) lives w) := by
  induction lives generalizing w with
  | nil => exact hw
  | cons life lives ih => exact ih (safe_lifetime life.1 hw.crash life.2).1

/-- A task marked as done is part of a commit; a task of a commit that changed files is marked as
nothing else; and a terminal state is the last one written for its task. -/
structure Truthful (w : Queue Callback Value) : Prop where
  succeeded : ∀ id row, w.row id = some row → row.state = .succeeded →
    ∃ c ∈ w.committed, id ∈ c.tasks
  committed : ∀ c ∈ w.committed, c.changed = true → ∀ id ∈ c.tasks, ∃ row, w.row id = some row ∧
    row.state ≠ .failed ∧ row.state ≠ .cancelled ∧ row.state ≠ .notApplied
  final : ∀ later id state earlier, w.states = later ++ (id, state) :: earlier →
    state.terminal = true →
    ∀ entry ∈ later, entry.1 ≠ id

theorem truthful_of_consistent (hw : Consistent w) : Truthful w where
  succeeded := hw.succeeded
  committed c hc hchanged id hid := by
    obtain ⟨row, hrow, hstate⟩ := hw.kept c hc hchanged id hid
    refine ⟨row, hrow, ?_⟩
    rcases hstate with h | ⟨h | h, -⟩ <;> simp [h]
  final later id state earlier hlog hterm entry hentry := by
    have hfinal := hw.final
    rw [Final, hlog, List.pairwise_append] at hfinal
    exact hfinal.2.2 entry hentry (id, state) List.mem_cons_self hterm

theorem task_receipts_truthful (settings : Settings)
    (lives : List (Life Callback Value Error settings)) :
    Truthful (Runs.run (live settings) lives Queue.empty) :=
  truthful_of_consistent (consistent_lives lives consistent_empty)

def choose (course : Course Unit) : Choice Nat Unit := ⟨course, fun id => id, true⟩

def steps (n : Nat) : List (Action
    (queue {} : System (Queue Unit Nat) (@Answer Unit Nat Unit) (Failure Unit))) :=
  List.replicate n (.call (choose .proceed))

-- The process ends after the files are committed and before the row is written; the next one finds
-- the receipt.
example : ((Runs.run (live {}) [(1, .env (.submit ⟨(), none, "f", 1, 1, false, []⟩) :: steps 12),
    (0, steps 2)] Queue.empty).tasks.get? 0).map (·.state) = some .succeeded := by decide

end NodeManager.TaskReceipts
