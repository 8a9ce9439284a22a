import NodeManager.Outcomes
import NodeManager.TaskQueue

namespace NodeManager.ReceiptInvariant

open Dictionary Outcomes WriteQueue TaskQueue

variable {Callback Value : Type} {w : Queue Callback Value} {id : TaskId} {row : Row Value}
  {v : Queue Callback Value} {t : Transaction Value} {settings : Settings}

def InFlight (state : TaskState) : Prop := state = .running ∨ state = .unknown

def Final (log : List (TaskId × TaskState)) : Prop :=
  log.Pairwise (fun later earlier => earlier.2.terminal = true → later.1 ≠ earlier.1)

/-- The commits are those the table tells of, and a task of a commit that is not marked yet has its
receipt. -/
structure Consistent (w : Queue Callback Value) : Prop where
  succeeded : ∀ id row, w.row id = some row → row.state = .succeeded →
    ∃ c ∈ w.committed, id ∈ c.tasks
  kept : ∀ c ∈ w.committed, c.changed = true → ∀ id ∈ c.tasks, ∃ row, w.row id = some row ∧
    (row.state = .succeeded ∨ InFlight row.state ∧ row.batch = some c.batch ∧
      ∃ receipt, w.receiptOf id row = some receipt)
  journal : ∀ t, w.journal = some (.batch t) → ∀ id receipt, t.proof.get? id = some receipt →
    ∃ row, w.row id = some row ∧ InFlight row.state ∧ row.batch = some t.batch ∧
      receipt.fingerprint = row.fingerprint
  single : ∀ t, w.journal = some (.batch t) → t.batch < w.fresh ∧
    ∀ c ∈ w.committed, c.changed = true → c.batch ≠ t.batch
  receipts : ∀ batch proof, w.receipts.get? batch = some proof →
    (∃ t, w.journal = some (.batch t) ∧ t.batch = batch) ∨
    ∃ c ∈ w.committed, c.changed = true ∧ c.batch = batch ∧
    ∀ id receipt, proof.get? id = some receipt → id ∈ c.tasks
  named : ∀ id row, w.row id = some row → id < w.fresh
  numbered : ∀ c ∈ w.committed, c.batch < w.fresh
  live : ∀ id ∈ w.live.keys, ∃ row, w.row id = some row ∧ row.state.terminal = false
  pending : (w.pending.map (·.taskId)).Nodup ∧ ∀ item ∈ w.pending, item.taskId ∈ w.live.keys ∧
    ∃ row, w.row item.taskId = some row ∧ row.state = .queued ∧ row.fingerprint = item.fingerprint
  final : Final w.states
  logged : ∀ entry ∈ w.states, entry.2.terminal = true →
    ∃ row, w.row entry.1 = some row ∧ row.state = entry.2
  archived : ∀ id row, w.archive.get? id = some row → row.state.terminal = true

theorem consistent_empty : Consistent (Queue.empty : Queue Callback Value) where
  succeeded := nofun
  kept := nofun
  journal := nofun
  single := nofun
  receipts := nofun
  named := nofun
  numbered := nofun
  live := nofun
  pending := ⟨List.nodup_nil, nofun⟩
  final := List.Pairwise.nil
  logged := nofun
  archived := nofun

theorem InFlight.not_terminal {state : TaskState} (h : InFlight state) :
    state.terminal = false := by
  rcases h with rfl | rfl <;> rfl

theorem row_of_hot (h : w.tasks.get? id = some row) : w.row id = some row := by
  rw [Queue.row, h, Option.some_or]

theorem Consistent.hot (hw : Consistent w) (hrow : w.row id = some row)
    (hopen : row.state.terminal = false) : w.tasks.get? id = some row := by
  cases hhot : w.tasks.get? id with
  | some found => exact (row_of_hot hhot).symm.trans hrow
  | none =>
    rw [Queue.row, hhot, Option.none_or] at hrow
    cases (hw.archived id row hrow).symm.trans hopen

theorem row_put_self (state : TaskState) (f : Row Value → Row Value)
    (h : w.tasks.get? id = some row) :
    (w.put id state f).row id = some { f row with state := state } := by
  apply row_of_hot
  rw [Queue.put, Dict.get?_modify, if_pos rfl, h, Option.map_some]

theorem row_put_of_ne (state : TaskState) (f : Row Value → Row Value) {j : TaskId} (hj : j ≠ id) :
    (w.put id state f).row j = w.row j := by
  rw [Queue.row, Queue.put, Dict.get?_modify, if_neg hj, Queue.row]

/-- The task is part of no commit that changed files, and not of the pending transaction. -/
structure Uncommitted (w : Queue Callback Value) (id : TaskId) : Prop where
  apart : ∀ t, w.journal = some (.batch t) → t.proof.get? id = none
  uncommitted : ∀ c ∈ w.committed, c.changed = true → id ∉ c.tasks

structure Committed (w : Queue Callback Value) (id : TaskId) : Prop where
  apart : ∀ t, w.journal = some (.batch t) → t.proof.get? id = none
  committed : ∃ c ∈ w.committed, id ∈ c.tasks

/-- One `UPDATE` keeps the invariant if the row is not terminal and the new state is right for the
commits. -/
theorem Consistent.put (hw : Consistent w) {id : TaskId} {row : Row Value} {state : TaskState}
    {f : Row Value → Row Value} (hrow : w.row id = some row) (hopen : row.state.terminal = false)
    (hlive : id ∈ w.live.keys → state.terminal = false)
    (hpending : ∀ item ∈ w.pending, item.taskId ≠ id)
    (hfingerprint : (f row).fingerprint = row.fingerprint)
    (hsucceeded : state = .succeeded → ∃ c ∈ w.committed, id ∈ c.tasks)
    (hkept : ∀ c ∈ w.committed, c.changed = true → id ∈ c.tasks →
      state = .succeeded ∨ InFlight state ∧ (f row).batch = row.batch)
    (hjournal : ∀ t receipt, w.journal = some (.batch t) → t.proof.get? id = some receipt →
      InFlight state ∧ (f row).batch = row.batch) : Consistent (w.put id state f) := by
  have hself : (w.put id state f).row id = some { f row with state := state } :=
    row_put_self state f (hw.hot hrow hopen)
  have hother : ∀ j, j ≠ id → (w.put id state f).row j = w.row j :=
    fun j hj => row_put_of_ne state f hj
  refine ⟨?_, ?_, ?_, hw.single, hw.receipts, ?_, hw.numbered, ?_, ⟨hw.pending.1, ?_⟩, ?_, ?_,
    hw.archived⟩
  · intro j r hr hstate
    by_cases hj : j = id
    · subst hj
      rw [hself, Option.some.injEq] at hr
      subst hr
      exact hsucceeded hstate
    · rw [hother j hj] at hr
      exact hw.succeeded j r hr hstate
  · intro c hc hchanged j hjc
    by_cases hj : j = id
    · subst hj
      refine ⟨_, hself, ?_⟩
      rcases hkept c hc hchanged hjc with h | ⟨h, hbatch⟩
      · exact .inl h
      obtain ⟨r, hr, hdone | ⟨-, hb, receipt, hreceipt⟩⟩ := hw.kept c hc hchanged j hjc
      · rw [hrow, Option.some.injEq] at hr
        subst hr
        rw [hdone] at hopen
        cases hopen
      rw [hrow, Option.some.injEq] at hr
      subst hr
      refine .inr ⟨h, hbatch.trans hb, receipt, ?_⟩
      simp only [Queue.receiptOf, hbatch, hfingerprint] at hreceipt ⊢
      exact hreceipt
    · obtain ⟨r, hr, h⟩ := hw.kept c hc hchanged j hjc
      exact ⟨r, (hother j hj).trans hr, h⟩
  · intro t ht j receipt hget
    obtain ⟨r, hr, hflight, hb, hf⟩ := hw.journal t ht j receipt hget
    by_cases hj : j = id
    · subst hj
      rw [hrow, Option.some.injEq] at hr
      subst hr
      obtain ⟨hs, hbatch⟩ := hjournal t receipt ht hget
      exact ⟨_, hself, hs, hbatch.trans hb, hf.trans hfingerprint.symm⟩
    · exact ⟨r, (hother j hj).trans hr, hflight, hb, hf⟩
  · intro j r hr
    by_cases hj : j = id
    · subst hj
      exact hw.named j row hrow
    · rw [hother j hj] at hr
      exact hw.named j r hr
  · intro j hj
    by_cases hjid : j = id
    · subst hjid
      exact ⟨_, hself, hlive hj⟩
    · obtain ⟨r, hr, h⟩ := hw.live j hj
      exact ⟨r, (hother j hjid).trans hr, h⟩
  · intro item hitem
    obtain ⟨hl, r, hr, h⟩ := hw.pending.2 item hitem
    exact ⟨hl, r, (hother _ (hpending item hitem)).trans hr, h⟩
  · refine List.Pairwise.cons ?_ hw.final
    intro entry he hterm heq
    obtain ⟨r, hr, hstate⟩ := hw.logged entry he hterm
    rw [← heq, hrow, Option.some.injEq] at hr
    rw [← hstate, ← hr, hopen] at hterm
    cases hterm
  · intro entry he hterm
    rcases List.mem_cons.mp he with rfl | he
    · exact ⟨_, hself, rfl⟩
    obtain ⟨r, hr, hstate⟩ := hw.logged entry he hterm
    by_cases hj : entry.1 = id
    · rw [hj, hrow, Option.some.injEq] at hr
      rw [← hstate, ← hr, hopen] at hterm
      cases hterm
    · exact ⟨r, (hother _ hj).trans hr, hstate⟩

theorem receiptOf_eq_some {receipt : Proof Value} :
    w.receiptOf id row = some receipt ↔ ∃ batch proof, row.batch = some batch ∧
    w.receipts.get? batch = some proof ∧
      proof.get? id = some receipt ∧ receipt.fingerprint = row.fingerprint := by
  simp only [Queue.receiptOf, Option.filter_eq_some_iff, Option.bind_eq_some_iff, decide_eq_true_eq]
  constructor
  · rintro ⟨⟨proof, ⟨batch, hb, hp⟩, hr⟩, hf⟩
    exact ⟨batch, proof, hb, hp, hr, hf⟩
  · rintro ⟨batch, proof, hb, hp, hr, hf⟩
    exact ⟨⟨proof, ⟨batch, hb, hp⟩, hr⟩, hf⟩

theorem Consistent.kept_of_receipts (hw : Consistent w) (hsame : v.row id = w.row id)
    {c : Commit} (hc : c ∈ w.committed) (hchanged : c.changed = true) (hid : id ∈ c.tasks)
    (hreceipts : ∀ row, w.row id = some row → InFlight row.state → row.batch = some c.batch →
    v.receipts.get? c.batch = w.receipts.get? c.batch) :
    ∃ row, v.row id = some row ∧ (row.state = .succeeded ∨
      InFlight row.state ∧ row.batch = some c.batch ∧
      ∃ receipt, v.receiptOf id row = some receipt) := by
  obtain ⟨row, hrow, hstate⟩ := hw.kept c hc hchanged id hid
  refine ⟨row, hsame.trans hrow, ?_⟩
  rcases hstate with h | ⟨hflight, hb, receipt, hreceipt⟩
  · exact .inl h
  refine .inr ⟨hflight, hb, receipt, ?_⟩
  obtain ⟨batch, proof, hb', hp, hget, hf⟩ := receiptOf_eq_some.mp hreceipt
  rw [hb, Option.some.injEq] at hb'
  subst hb'
  exact receiptOf_eq_some.mpr ⟨c.batch, proof, hb,
    (hreceipts row hrow hflight hb).trans hp, hget, hf⟩

theorem Consistent.commit (hw : Consistent w) (ht : w.journal = some (.batch t)) :
    Consistent (w.commit t) := by
  refine ⟨?_, ?_, nofun, nofun, ?_, hw.named, ?_, hw.live, hw.pending, hw.final, hw.logged,
    hw.archived⟩
  · intro id row hrow hstate
    obtain ⟨c, hc, hid⟩ := hw.succeeded id row hrow hstate
    exact ⟨c, List.mem_cons_of_mem _ hc, hid⟩
  · intro c hc hchanged id hid
    rcases List.mem_cons.mp hc with rfl | hc
    · obtain ⟨receipt, hget⟩ := Dict.mem_keys_iff.mp hid
      obtain ⟨row, hrow, hflight, hb, hf⟩ := hw.journal t ht id receipt hget
      refine ⟨row, hrow, .inr ⟨hflight, hb, receipt,
        receiptOf_eq_some.mpr ⟨t.batch, t.proof, hb, ?_, hget, hf⟩⟩⟩
      exact (Dict.get?_set _ _ _ _).trans (if_pos rfl)
    · refine hw.kept_of_receipts (v := w.commit t) rfl hc hchanged hid ?_
      intro _ _ _ _
      exact (Dict.get?_set _ _ _ _).trans (if_neg ((hw.single t ht).2 c hc hchanged))
  · intro batch proof hget
    right
    simp only [Queue.commit, Dict.get?_set] at hget
    split at hget
    next heq =>
      cases hget
      exact ⟨_, List.mem_cons_self, rfl, heq.symm,
        fun id receipt h => Dict.mem_keys_iff.mpr ⟨receipt, h⟩⟩
    next hne =>
      rcases hw.receipts batch proof hget with ⟨t', ht', hb⟩ | ⟨c, hc, h⟩
      · rw [ht, Option.some.injEq, Wal.batch.injEq] at ht'
        exact absurd (ht' ▸ hb.symm) hne
      · exact ⟨c, List.mem_cons_of_mem _ hc, h⟩
  · intro c hc
    rcases List.mem_cons.mp hc with rfl | hc
    · exact (hw.single t ht).1
    · exact hw.numbered c hc

theorem Consistent.undo (hw : Consistent w) (ht : w.journal = some (.batch t)) :
    Consistent (w.undo t) := by
  refine ⟨hw.succeeded, ?_, nofun, nofun, ?_, hw.named, hw.numbered, hw.live, hw.pending,
    hw.final, hw.logged, hw.archived⟩
  · intro c hc hchanged id hid
    refine hw.kept_of_receipts (v := w.undo t) rfl hc hchanged hid ?_
    intro _ _ _ _
    exact (Dict.get?_erase _ _ _).trans (if_neg ((hw.single t ht).2 c hc hchanged))
  intro batch proof hget
  right
  simp only [Queue.undo, Dict.get?_erase] at hget
  split at hget
  · cases hget
  next hne =>
    rcases hw.receipts batch proof hget with ⟨t', ht', hb⟩ | h
    · rw [ht, Option.some.injEq, Wal.batch.injEq] at ht'
      exact absurd (ht' ▸ hb.symm) hne
    · exact h

theorem Consistent.resolve (hw : Consistent w) (applied : Bool) :
    Consistent (w.resolve applied) := by
  unfold Queue.resolve
  split
  · exact hw
  next hother =>
    refine { hw with journal := nofun, single := nofun, receipts := ?_ }
    intro batch proof hget
    rcases hw.receipts batch proof hget with ⟨t, ht, -⟩ | h
    · cases hother.symm.trans ht
    · exact .inr h
  next t ht =>
    split
    · exact hw.commit ht
    · exact hw.undo ht

theorem mem_openBatches {batch : Batch} (hrow : w.tasks.get? id = some row)
    (hopen : row.state.terminal = false) (hb : row.batch = some batch) : batch ∈ w.openBatches := by
  refine List.mem_filterMap.mpr ⟨(id, row), Dict.mem_entries_iff.mpr hrow, ?_⟩
  simp [hopen, hb]

theorem Consistent.cleanupReceipt (hw : Consistent w) (batch : Batch) :
    Consistent (w.cleanupReceipt batch) := by
  unfold Queue.cleanupReceipt
  split
  · exact hw
  next h =>
    rw [not_or] at h
    refine { hw with kept := ?_, receipts := ?_ }
    · intro c hc hchanged id hid
      refine hw.kept_of_receipts (v := { w with receipts := w.receipts.erase batch }) rfl hc
        hchanged hid ?_
      intro row hrow hflight hb
      refine (Dict.get?_erase _ _ _).trans (if_neg ?_)
      rintro rfl
      exact h.2 (mem_openBatches (hw.hot hrow hflight.not_terminal) hflight.not_terminal hb)
    · intro b proof hget
      simp only [Dict.get?_erase] at hget
      split at hget
      · cases hget
      · exact hw.receipts b proof hget

theorem Consistent.reconcile (hw : Consistent w) (hj : w.journal = none) (id : TaskId) :
    Consistent (w.reconcile id) := by
  unfold Queue.reconcile
  split
  · exact hw
  next row hhot =>
    have hrow := row_of_hot hhot
    split
    · exact hw
    next h =>
      rw [not_or, Bool.not_eq_true] at h
      have hlive : ∀ state : TaskState, id ∈ w.live.keys → state.terminal = false :=
        fun _ hl => absurd hl h.2
      have hpending : ∀ item ∈ w.pending, item.taskId ≠ id := by
        rintro item hitem rfl
        exact h.2 (hw.pending.2 item hitem).1
      have hjournal : ∀ t, w.journal ≠ some (.batch t) := by
        rw [hj]
        exact nofun
      split
      next receipt hreceipt =>
        refine hw.put hrow h.1 (hlive _) hpending rfl (fun _ => ?_) (fun _ _ _ _ => .inl rfl)
          (fun t _ ht => absurd ht (hjournal t))
        obtain ⟨batch, proof, -, hp, hget, -⟩ := receiptOf_eq_some.mp hreceipt
        rcases hw.receipts batch proof hp with ⟨t, ht, -⟩ | ⟨c, hc, -, -, hall⟩
        · exact absurd ht (hjournal t)
        · exact ⟨c, hc, hall id receipt hget⟩
      next hreceipt =>
        -- a task of a commit would have its receipt
        have huncommitted : ∀ c ∈ w.committed, c.changed = true → id ∉ c.tasks := by
          intro c hc hchanged hid
          obtain ⟨r, hr, hstate⟩ := hw.kept c hc hchanged id hid
          rw [hrow, Option.some.injEq] at hr
          subst hr
          rcases hstate with hdone | ⟨-, -, receipt, hsome⟩
          · rw [hdone] at h
            cases h.1
          · cases hreceipt.symm.trans hsome
        split
        · exact hw.put hrow h.1 (hlive _) hpending rfl nofun
            (fun c hc hchanged hid => absurd hid (huncommitted c hc hchanged))
            (fun t _ ht => absurd ht (hjournal t))
        · exact hw.put hrow h.1 (hlive _) hpending rfl nofun
            (fun c hc hchanged hid => absurd hid (huncommitted c hc hchanged))
            (fun t _ ht => absurd ht (hjournal t))

theorem row_enqueue_self (submission : Submission Callback) (w : Queue Callback Value) :
    (w.enqueue submission).row w.fresh = some ⟨submission.key.map (·.text), submission.fingerprint,
      .queued, none, none, none, submission.units⟩ :=
  row_of_hot ((Dict.get?_set _ _ _ _).trans (if_pos rfl))

theorem row_enqueue_of_ne (submission : Submission Callback) (h : id ≠ w.fresh) :
    (w.enqueue submission).row id = w.row id := by
  rw [Queue.row, Queue.enqueue, Dict.get?_set, if_neg h, Queue.row]

theorem Consistent.enqueue (hw : Consistent w) (submission : Submission Callback) :
    Consistent (w.enqueue submission) := by
  have hfresh : ∀ id row, w.row id = some row → id ≠ w.fresh :=
    fun id row hrow => (hw.named id row hrow).ne
  have hold : ∀ id row, w.row id = some row → (w.enqueue submission).row id = some row := by
    intro id row hrow
    exact (row_enqueue_of_ne submission (hfresh id row hrow)).trans hrow
  have hcases : ∀ id row, (w.enqueue submission).row id = some row →
      id = w.fresh ∧ row.state = .queued ∨ w.row id = some row := by
    intro id row hrow
    by_cases heq : id = w.fresh
    · subst heq
      rw [row_enqueue_self, Option.some.injEq] at hrow
      exact .inl ⟨rfl, hrow ▸ rfl⟩
    · exact .inr ((row_enqueue_of_ne submission heq).symm.trans hrow)
  refine ⟨?_, ?_, ?_, ?_, hw.receipts, ?_, ?_, ?_, ⟨?_, ?_⟩, ?_, ?_, hw.archived⟩
  · intro id row hrow hstate
    rcases hcases id row hrow with ⟨-, hq⟩ | hrow
    · cases hq.symm.trans hstate
    · exact hw.succeeded id row hrow hstate
  · intro c hc hchanged id hid
    obtain ⟨row, hrow, h⟩ := hw.kept c hc hchanged id hid
    exact ⟨row, hold id row hrow, h⟩
  · intro t ht id receipt hget
    obtain ⟨row, hrow, h⟩ := hw.journal t ht id receipt hget
    exact ⟨row, hold id row hrow, h⟩
  · intro t ht
    exact ⟨Nat.lt_succ_of_lt (hw.single t ht).1, (hw.single t ht).2⟩
  · intro id row hrow
    rcases hcases id row hrow with ⟨rfl, -⟩ | hrow
    · exact Nat.lt_succ_self _
    · exact Nat.lt_succ_of_lt (hw.named id row hrow)
  · intro c hc
    exact Nat.lt_succ_of_lt (hw.numbered c hc)
  · intro id hid
    rcases Dict.mem_keys_set.mp hid with rfl | hid
    · exact ⟨_, row_enqueue_self submission w, rfl⟩
    · obtain ⟨row, hrow, h⟩ := hw.live id hid
      exact ⟨row, hold id row hrow, h⟩
  · have hnew : w.fresh ∉ w.pending.map (·.taskId) := by
      intro hmem
      obtain ⟨item, hitem, heq⟩ := List.mem_map.mp hmem
      obtain ⟨-, row, hrow, -⟩ := hw.pending.2 item hitem
      exact hfresh _ row hrow heq
    simp only [Queue.enqueue, List.map_append, List.map_cons, List.map_nil]
    exact List.Nodup.append hw.pending.1 (List.nodup_singleton _) (List.disjoint_singleton.mpr hnew)
  · intro item hitem
    rcases List.mem_append.mp hitem with hitem | hitem
    · obtain ⟨hl, row, hrow, h⟩ := hw.pending.2 item hitem
      exact ⟨Dict.mem_keys_set.mpr (.inr hl), row, hold _ row hrow, h⟩
    · obtain rfl := List.mem_singleton.mp hitem
      exact ⟨Dict.mem_keys_set.mpr (.inl rfl), _, row_enqueue_self submission w, rfl, rfl⟩
  · refine List.Pairwise.cons ?_ hw.final
    intro entry he hterm heq
    obtain ⟨row, hrow, -⟩ := hw.logged entry he hterm
    exact hfresh _ row hrow heq.symm
  · intro entry he hterm
    rcases List.mem_cons.mp he with rfl | he
    · cases hterm
    · obtain ⟨row, hrow, h⟩ := hw.logged entry he hterm
      exact ⟨row, hold _ row hrow, h⟩

theorem Consistent.crash (hw : Consistent w) : Consistent w.crash :=
  { hw with live := nofun, pending := ⟨List.nodup_nil, nofun⟩ }

theorem get?_foldlM_insertArchived {rows : List (TaskId × Row Value)}
    {archive archive' : Dict TaskId (Row Value)}
    (h : rows.foldlM Queue.insertArchived archive = .ok archive') :
    (∀ e ∈ rows, archive.get? e.1 = none) ∧
      ∀ j, archive'.get? j = (archive.get? j).or (rows.lookup j) := by
  induction rows generalizing archive with
  | nil =>
    cases h
    exact ⟨nofun, fun j => (Option.or_none).symm⟩
  | cons e rows ih =>
    obtain ⟨next, hnext, h⟩ := bind_eq_ok h
    obtain ⟨hfree, hget⟩ := ih h
    unfold Queue.insertArchived at hnext
    split_ifs at hnext with hid
    cases hnext
    have hnone : archive.get? e.1 = none := Dict.get?_eq_none.mpr hid
    refine ⟨?_, fun j => ?_⟩
    · intro e' he'
      rcases List.mem_cons.mp he' with rfl | he'
      · exact hnone
      have hset := hfree e' he'
      rw [Dict.get?_set] at hset
      split_ifs at hset
      exact hset
    · rw [hget, Dict.get?_set, Dict.lookup_cons]
      split_ifs with hj
      · rw [hj, hnone, Option.some_or, Option.none_or]
      · rfl

theorem terminal_of_mem_oldest {updated : TaskId → Nat} {limit : Nat}
    {tasks : Dict TaskId (Row Value)} (hid : id ∈ Queue.oldest updated limit tasks)
    (hrow : tasks.get? id = some row) :
    row.state.terminal = true := by
  have hsorted := List.mem_of_mem_take hid
  rw [List.mem_insertionSort] at hsorted
  obtain ⟨e, he, rfl⟩ := List.mem_map.mp hsorted
  obtain ⟨he, hterminal⟩ := List.mem_filter.mp he
  have heq := (Dict.mem_entries_iff.mp he).symm.trans hrow
  exact Option.some.inj heq ▸ hterminal

theorem archiveHistory_ok {updated : TaskId → Nat} (h : w.archiveHistory settings updated = .ok v) :
    ∃ tasks archive, v = { w with tasks := tasks, archive := archive } ∧
    (∀ id, v.row id = w.row id) ∧
      ∀ id row, v.archive.get? id = some row → w.archive.get? id = some row ∨
      row.state.terminal = true := by
  simp only [Queue.archiveHistory] at h
  split at h
  · cases h
    exact ⟨_, _, rfl, fun _ => rfl, fun _ _ h => .inl h⟩
  split at h
  · cases h
  next archive hfold =>
    cases h
    obtain ⟨hfree, hget⟩ := get?_foldlM_insertArchived hfold
    generalize hids : Queue.oldest updated _ w.tasks = ids at hfree hget
    have hlookup : ∀ j, archive.get? j =
        (w.archive.get? j).or (if j ∈ ids then w.tasks.get? j else none) := by
      intro j
      rw [hget, Dict.lookup_filter w.tasks.entries (fun k => decide (k ∈ ids))]
      simp only [decide_eq_true_eq, Dict.get?]
    refine ⟨_, _, rfl, fun j => ?_, fun j row hrow => ?_⟩
    · rw [Queue.row, Dict.get?_filterKeys, hlookup, Queue.row]
      by_cases hj : j ∈ ids
      · cases htask : w.tasks.get? j with
        | none => simp [hj]
        | some row =>
          have hnone := hfree (j, row)
            (List.mem_filter.mpr ⟨Dict.mem_entries_iff.mpr htask, decide_eq_true hj⟩)
          simp [hj, hnone]
      · simp [hj]
    · rw [hlookup] at hrow
      rcases Option.or_eq_some_iff.mp hrow with hrow | ⟨-, hrow⟩
      · exact .inl hrow
      split_ifs at hrow with hj
      exact .inr (terminal_of_mem_oldest (hids ▸ hj) hrow)

theorem Consistent.archiveHistory (hw : Consistent w) {updated : TaskId → Nat}
    (h : w.archiveHistory settings updated = .ok v) : Consistent v := by
  obtain ⟨tasks, archive, rfl, hrow, harchive⟩ := archiveHistory_ok h
  refine ⟨?_, ?_, ?_, hw.single, hw.receipts, ?_, hw.numbered, ?_, ?_, hw.final, ?_, ?_⟩
  · simpa only [hrow] using hw.succeeded
  · simp only [hrow]
    exact hw.kept
  · simpa only [hrow] using hw.journal
  · simpa only [hrow] using hw.named
  · simpa only [hrow] using hw.live
  · simpa only [hrow] using hw.pending
  · simpa only [hrow] using hw.logged
  · exact fun id row hget => (harchive id row hget).elim (hw.archived id row) (fun h => h)

/-- What other threads leave of the tasks of this worker: their rows, and the transactions they are
in. -/
structure Frame (w v : Queue Callback Value) : Prop where
  rows : ∀ id ∈ w.live.keys, v.row id = w.row id
  live : ∀ id ∈ w.live.keys, id ∈ v.live.keys
  pending : ∀ item ∈ v.pending, item ∈ w.pending ∨ item.taskId ∉ w.live.keys
  committed : ∀ c ∈ w.committed, c ∈ v.committed
  origin : ∀ c ∈ v.committed, c ∈ w.committed ∨
    ∃ t, w.journal = some (.batch t) ∧ c = ⟨t.batch, t.proof.keys, true⟩
  journal : ∀ t, v.journal = some (.batch t) → w.journal = some (.batch t)
  locked : v.locked = w.locked
  guarded : w.locked = true → v.journal = w.journal ∧ v.committed = w.committed
  fresh : w.fresh ≤ v.fresh

theorem Frame.refl (w : Queue Callback Value) : Frame w w :=
  ⟨fun _ _ => rfl, fun _ h => h, fun _ h => .inl h, fun _ h => h, fun _ h => .inl h,
    fun _ h => h, rfl, fun _ => ⟨rfl, rfl⟩, le_rfl⟩

theorem frame_enqueue (hw : Consistent w) (submission : Submission Callback) :
    Frame w (w.enqueue submission) := by
  have hfresh : w.fresh ∉ w.live.keys := by
    intro hl
    obtain ⟨row, hrow, -⟩ := hw.live _ hl
    exact (hw.named _ row hrow).ne rfl
  refine { Frame.refl w with rows := ?_, live := ?_, pending := ?_, fresh := Nat.le_succ _ }
  · intro id hid
    refine row_enqueue_of_ne submission ?_
    rintro rfl
    exact hfresh hid
  · exact fun id hid => Dict.mem_keys_set.mpr (.inr hid)
  intro item hitem
  rcases List.mem_append.mp hitem with hitem | hitem
  · exact .inl hitem
  · obtain rfl := List.mem_singleton.mp hitem
    exact .inr hfresh

theorem frame_resolve (hl : w.locked ≠ true) (applied : Bool) : Frame w (w.resolve applied) := by
  unfold Queue.resolve
  split
  · exact Frame.refl w
  · exact { Frame.refl w with journal := nofun, guarded := fun h => absurd h hl }
  next t ht =>
    split
    · refine { Frame.refl w with
        committed := fun c hc => List.mem_cons_of_mem _ hc, origin := ?_, journal := nofun,
        guarded := fun h => absurd h hl }
      intro c hc
      rcases List.mem_cons.mp hc with rfl | hc
      · exact .inr ⟨t, ht, rfl⟩
      · exact .inl hc
    · exact { Frame.refl w with journal := nofun, guarded := fun h => absurd h hl }

theorem Frame.trans {u : Queue Callback Value} (h : Frame w v) (h' : Frame v u) : Frame w u where
  rows id hid := (h'.rows id (h.live id hid)).trans (h.rows id hid)
  live id hid := h'.live id (h.live id hid)
  pending item hitem := by
    rcases h'.pending item hitem with hitem | hnew
    · exact h.pending item hitem
    · exact .inr (fun hid => hnew (h.live _ hid))
  committed c hc := h'.committed c (h.committed c hc)
  origin c hc := by
    rcases h'.origin c hc with hc | ⟨t, ht, heq⟩
    · exact h.origin c hc
    · exact .inr ⟨t, h.journal t ht, heq⟩
  journal t ht := h.journal t (h'.journal t ht)
  locked := h'.locked.trans h.locked
  guarded hl := by
    have hv := h.guarded hl
    have hu := h'.guarded (h.locked.trans hl)
    exact ⟨hu.1.trans hv.1, hu.2.trans hv.2⟩
  fresh := h.fresh.trans h'.fresh

theorem frame_put (hid : id ∉ w.live.keys) (state : TaskState) (f : Row Value → Row Value) :
    Frame w (w.put id state f) := by
  refine { Frame.refl w with rows := ?_ }
  intro j hj
  refine row_put_of_ne state f ?_
  rintro rfl
  exact hid hj

theorem frame_reconcile (w : Queue Callback Value) (id : TaskId) : Frame w (w.reconcile id) := by
  unfold Queue.reconcile
  split
  · exact Frame.refl w
  split
  · exact Frame.refl w
  next h =>
    rw [not_or] at h
    split
    · exact frame_put h.2 _ _
    split
    · exact frame_put h.2 _ _
    · exact frame_put h.2 _ _

theorem frame_cleanupReceipt (w : Queue Callback Value) (batch : Batch) :
    Frame w (w.cleanupReceipt batch) := by
  unfold Queue.cleanupReceipt
  split
  · exact Frame.refl w
  · exact { Frame.refl w with }

theorem Consistent.upkeep (hw : Consistent w) (h : Upkeep settings w v) :
    Consistent v ∧ Frame w v := by
  cases h with
  | reconcile id hjournal => exact ⟨hw.reconcile hjournal id, frame_reconcile w id⟩
  | archive hok =>
    refine ⟨hw.archiveHistory hok, ?_⟩
    obtain ⟨_, _, rfl, hrow, -⟩ := archiveHistory_ok hok
    exact { Frame.refl w with rows := fun id _ => hrow id }
  | cleanup batch => exact ⟨hw.cleanupReceipt batch, frame_cleanupReceipt w batch⟩
  | resolve applied hfree => exact ⟨hw.resolve applied, frame_resolve hfree applied⟩
  | other hfree =>
    rw [not_or] at hfree
    refine ⟨{ hw with journal := nofun, single := nofun, receipts := ?_ },
      { Frame.refl w with journal := nofun, guarded := fun hl => absurd hl hfree.1 }⟩
    intro batch proof hget
    rcases hw.receipts batch proof hget with ⟨t, ht, -⟩ | hc
    · rw [ht] at hfree
      exact absurd rfl hfree.2
    · exact .inr hc
  | flags paused hclosed => exact ⟨{ hw with }, { Frame.refl w with }⟩

theorem Consistent.upkept (hw : Consistent w) (h : Upkept settings w v) :
    Consistent v ∧ Frame w v := by
  induction h with
  | refl => exact ⟨hw, Frame.refl w⟩
  | tail _ hstep ih =>
    have hlast := ih.1.upkeep hstep
    exact ⟨hlast.1, ih.2.trans hlast.2⟩

theorem Consistent.occur (hw : Consistent w) (settings : Settings) (event : Event Callback) :
    Consistent (occur settings event w) ∧ Frame w (occur settings event w) := by
  obtain hupkept | ⟨submission, heq, -⟩ := occur_cases settings event w
  · exact hw.upkept hupkept
  · rw [heq]
    exact ⟨hw.enqueue submission, frame_enqueue hw submission⟩

end NodeManager.ReceiptInvariant
