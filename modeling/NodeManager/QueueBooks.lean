import NodeManager.TaskQueue

namespace NodeManager.QueueBooks

open Dictionary WriteQueue TaskQueue

variable {Callback Value Error : Type} {settings : Settings} {q q' q'' : Queue Callback Value}
  {f : Row Value → Row Value} {submission : Submission Callback}

def entry (e : TaskId × Row Value) : TaskId × Option String × String :=
  (e.1, e.2.requestKey, e.2.fingerprint)

def ledger (q : Queue Callback Value) : List (TaskId × Option String × String) :=
  (q.tasks.entries ++ q.archive.entries).map entry

theorem ledger_put (id : TaskId) (state : TaskState)
    (hf : ∀ row, (f row).requestKey = row.requestKey ∧ (f row).fingerprint = row.fingerprint) :
    ledger (q.put id state f) = ledger q := by
  have hentry : ∀ e : TaskId × Row Value,
      entry (if e.1 = id then (e.1, { f e.2 with state := state }) else e) = entry e := by
    intro e
    split
    · simp only [entry, hf]
    · rfl
  simp only [ledger, Queue.put, Dict.modify, List.map_append, List.map_map,
    Function.comp_def, hentry]

structure Same (q q' : Queue Callback Value) : Prop where
  ledger : (ledger q').Perm (ledger q)
  fresh : q.fresh ≤ q'.fresh
  pending : q'.pending = q.pending
  live : q'.live = q.live
  units : q'.units = q.units
  bytes : q'.bytes = q.bytes
  busy : q'.busy = q.busy
  lost : q'.lost = q.lost
  log : q'.log = q.log
  broken : q.broken = true → q'.broken = true
  closed : q.closed = true → q'.closed = true

theorem Same.refl (q : Queue Callback Value) : Same q q :=
  ⟨.refl _, le_rfl, rfl, rfl, rfl, rfl, rfl, rfl, rfl, fun h => h, fun h => h⟩

theorem Same.trans (h : Same q q') (h' : Same q' q'') : Same q q'' where
  ledger := h'.ledger.trans h.ledger
  fresh := h.fresh.trans h'.fresh
  pending := h'.pending.trans h.pending
  live := h'.live.trans h.live
  units := h'.units.trans h.units
  bytes := h'.bytes.trans h.bytes
  busy := h'.busy.trans h.busy
  lost := h'.lost.trans h.lost
  log := h'.log.trans h.log
  broken := h'.broken ∘ h.broken
  closed := h'.closed ∘ h.closed

theorem same_put (q : Queue Callback Value) (id : TaskId) (state : TaskState)
    (hf : ∀ row, (f row).requestKey = row.requestKey ∧ (f row).fingerprint = row.fingerprint) :
    Same q (q.put id state f) :=
  { Same.refl q with ledger := .of_eq (ledger_put id state hf) }

theorem same_foldl {ι : Type} {f : Queue Callback Value → ι → Queue Callback Value}
    (hf : ∀ q i, Same q (f q i)) (is : List ι) (q : Queue Callback Value) :
    Same q (is.foldl f q) := by
  induction is generalizing q with
  | nil => exact Same.refl q
  | cons i is ih => exact (hf q i).trans (ih (f q i))

theorem same_begin (ids : List TaskId) (q : Queue Callback Value) : Same q (q.begin ids) := by
  have hfresh : Same q { q with fresh := q.fresh + 1 } :=
    { Same.refl q with fresh := Nat.le_succ _ }
  refine hfresh.trans (same_foldl ?_ ids _)
  exact fun q' id => same_put q' id _ (fun _ => ⟨rfl, rfl⟩)

theorem same_reconcile (q : Queue Callback Value) (id : TaskId) : Same q (q.reconcile id) := by
  unfold Queue.reconcile
  split
  · exact Same.refl q
  split
  · exact Same.refl q
  split
  · exact same_put q id _ (fun _ => ⟨rfl, rfl⟩)
  split
  · exact same_put q id _ (fun _ => ⟨rfl, rfl⟩)
  · exact same_put q id _ (fun _ => ⟨rfl, rfl⟩)

theorem same_cleanupReceipt (q : Queue Callback Value) (batch : Batch) :
    Same q (q.cleanupReceipt batch) := by
  unfold Queue.cleanupReceipt
  split
  · exact Same.refl q
  · exact { Same.refl q with }

theorem same_resolve (applied : Bool) (q : Queue Callback Value) : Same q (q.resolve applied) := by
  unfold Queue.resolve
  split
  · exact Same.refl q
  · exact { Same.refl q with }
  · split <;> exact { Same.refl q with }

theorem foldlM_insertArchived (rows : List (TaskId × Row Value)) (archive : Dict TaskId (Row Value))
    (hids : ((archive.entries ++ rows).map Prod.fst).Nodup)
    (hkeys : ((archive.entries ++ rows).filterMap (·.2.requestKey)).Nodup) :
    ∃ archive', rows.foldlM Queue.insertArchived archive = .ok archive' ∧
    archive'.entries = archive.entries ++ rows := by
  induction rows generalizing archive with
  | nil => exact ⟨archive, rfl, (List.append_nil _).symm⟩
  | cons row rows ih =>
    have hid : row.1 ∉ archive.keys := by
      simp only [List.map_append, List.map_cons, List.nodup_append, List.mem_cons] at hids
      exact fun hmem => hids.2.2 row.1 hmem row.1 (.inl rfl) rfl
    have hkey : ¬(row.2.requestKey.isSome ∧
        ∃ other ∈ archive.entries, other.2.requestKey = row.2.requestKey) := by
      rintro ⟨hsome, other, hother, heq⟩
      obtain ⟨key, hkey⟩ := Option.isSome_iff_exists.mp hsome
      rw [List.filterMap_append, List.filterMap_cons_some
        (f := fun e : TaskId × Row Value => e.2.requestKey) hkey, List.nodup_append] at hkeys
      exact hkeys.2.2 key (List.mem_filterMap.mpr ⟨other, hother, heq.trans hkey⟩) key
        List.mem_cons_self rfl
    have hset := Dict.entries_set_of_not_mem hid row.2
    have hassoc : archive.entries ++ row :: rows = (archive.set row.1 row.2).entries ++ rows := by
      rw [hset, List.append_assoc]
      rfl
    obtain ⟨archive', hfold, hentries⟩ :=
      ih (archive.set row.1 row.2) (hassoc ▸ hids) (hassoc ▸ hkeys)
    refine ⟨archive', ?_, hentries.trans hassoc.symm⟩
    rw [List.foldlM_cons, Queue.insertArchived, if_neg hid, if_neg hkey]
    exact hfold

structure Tables (q : Queue Callback Value) : Prop where
  ids : ((ledger q).map Prod.fst).Nodup
  keys : ((ledger q).filterMap (·.2.1)).Nodup
  named : ∀ e ∈ ledger q, e.2.1 ≠ some ""
  old : ∀ e ∈ ledger q, e.1 < q.fresh

theorem Tables.same (h : Tables q) (hs : Same q q') : Tables q' where
  ids := (hs.ledger.map _).nodup_iff.mpr h.ids
  keys := (hs.ledger.filterMap _).nodup_iff.mpr h.keys
  named e he := h.named e (hs.ledger.mem_iff.mp he)
  old e he := (h.old e (hs.ledger.mem_iff.mp he)).trans_le hs.fresh

theorem Tables.archiveHistory (h : Tables q) (updated : TaskId → Nat) :
    ∃ archived, q.archiveHistory settings updated = .ok archived ∧ Same q archived := by
  simp only [Queue.archiveHistory]
  split
  · exact ⟨q, rfl, Same.refl q⟩
  generalize Queue.oldest updated _ q.tasks = ids
  have hperm : (q.tasks.entries.filter (fun e => decide (e.1 ∈ ids)) ++
      q.tasks.entries.filter (fun e => decide (e.1 ∉ ids))).Perm q.tasks.entries := by
    simpa only [decide_not] using List.filter_append_perm
      (fun e : TaskId × Row Value => decide (e.1 ∈ ids)) q.tasks.entries
  have hmoved : (q.archive.entries ++ q.tasks.entries.filter (fun e => decide (e.1 ∈ ids))).Sublist
      (q.archive.entries ++ q.tasks.entries) := List.filter_sublist.append_left _
  have hrows : (q.archive.entries ++ q.tasks.entries).Perm (q.tasks.entries ++ q.archive.entries) :=
    List.perm_append_comm
  have hids : ((q.archive.entries ++ q.tasks.entries).map Prod.fst).Nodup := by
    rw [(hrows.map Prod.fst).nodup_iff]
    simpa only [ledger, List.map_map, Function.comp_def, entry] using h.ids
  have hkeys : ((q.archive.entries ++ q.tasks.entries).filterMap (·.2.requestKey)).Nodup := by
    rw [(hrows.filterMap _).nodup_iff]
    simpa only [ledger, List.filterMap_map, Function.comp_def, entry] using h.keys
  obtain ⟨archive, hfold, hentries⟩ :=
    foldlM_insertArchived _ q.archive (hids.sublist (hmoved.map _))
    (hkeys.sublist (hmoved.filterMap _))
  simp only [hfold]
  refine ⟨_, rfl, { Same.refl q with ledger := ?_ }⟩
  refine List.Perm.map entry ?_
  rw [hentries]
  refine (List.perm_append_comm.trans ?_)
  rw [List.append_assoc]
  exact (hperm.append_left q.archive.entries).trans List.perm_append_comm

theorem Tables.upkeep (h : Tables q) (hu : Upkeep settings q q') : Same q q' := by
  cases hu with
  | reconcile id => exact same_reconcile q id
  | archive hok =>
    obtain ⟨archived, harchived, hsame⟩ := h.archiveHistory _
    cases harchived.symm.trans hok
    exact hsame
  | cleanup batch => exact same_cleanupReceipt q batch
  | resolve applied => exact same_resolve applied q
  | other => exact { Same.refl q with }
  | flags paused hclosed => exact { Same.refl q with closed := hclosed }

theorem Tables.upkept (h : Tables q) (hu : Upkept settings q q') : Same q q' := by
  induction hu with
  | refl => exact Same.refl q
  | tail _ hstep ih => exact ih.trans ((h.same ih).upkeep hstep)

theorem eq_of_nodup_filterMap {α β : Type} {f : α → Option β} {xs : List α}
    (h : (xs.filterMap f).Nodup) {x y : α} (hx : x ∈ xs) (hy : y ∈ xs) {b : β} (hfx : f x = some b)
    (hfy : f y = some b) : x = y := by
  have hsymm : Std.Symm (fun x y => ∀ b, f x = some b → ∀ c, f y = some c → b ≠ c) :=
    ⟨fun _ _ hxy b hb c hc heq => hxy c hc b hb heq.symm⟩
  by_contra hne
  exact (List.pairwise_filterMap.mp h).forall hx hy hne b hfx b hfy rfl

theorem rowOfKey_eq_some {key : String} {table : Dict TaskId (Row Value)} {e : TaskId × Row Value}
    (h : Queue.rowOfKey key table = some e) : e ∈ table.entries ∧ e.2.requestKey = some key :=
  ⟨List.mem_of_find?_eq_some h, by simpa using List.find?_some h⟩

theorem Tables.known (h : Tables q) {id : TaskId} {key fingerprint : String}
    (hmem : (id, some key, fingerprint) ∈ ledger q) :
    ∃ row, q.known (some key) = some (id, row) ∧ row.fingerprint = fingerprint := by
  have hname : key ≠ "" := fun hempty => h.named _ hmem (congrArg some hempty)
  have hone : ∀ e ∈ q.tasks.entries ++ q.archive.entries, e.2.requestKey = some key →
      ∃ row, some e = some (id, row) ∧ row.fingerprint = fingerprint := by
    intro e he hkey
    have heq : entry e = (id, some key, fingerprint) :=
      eq_of_nodup_filterMap h.keys (List.mem_map_of_mem he) hmem hkey rfl
    simp only [entry, Prod.mk.injEq] at heq
    exact ⟨e.2, by rw [← heq.1], heq.2.2⟩
  rw [Queue.known, Option.filter_some, if_pos (by simpa using hname), Option.bind_some]
  cases hhot : Queue.rowOfKey key q.tasks with
  | some e =>
    obtain ⟨he, hkey⟩ := rowOfKey_eq_some hhot
    exact hone e (List.mem_append_left _ he) hkey
  | none =>
    cases hold : Queue.rowOfKey key q.archive with
    | some e =>
      obtain ⟨he, hkey⟩ := rowOfKey_eq_some hold
      exact hone e (List.mem_append_right _ he) hkey
    | none =>
      obtain ⟨e, he, heq⟩ := List.mem_map.mp hmem
      have hkey : e.2.requestKey = some key := congrArg (·.2.1) heq
      obtain he | he := List.mem_append.mp he
      · exact absurd (decide_eq_true hkey) (List.find?_eq_none.mp hhot e he)
      · exact absurd (decide_eq_true hkey) (List.find?_eq_none.mp hold e he)

def Shares (a b : Item Callback) : Prop := ∃ key ∈ a.keys, key ∈ b.keys

def Separate (items : List (Item Callback)) : Prop := items.Pairwise (fun a b => ¬Shares a b)

/-- What may come after what: tasks are numbered as they come in, none is finished twice or tried
after that, and of two tasks for one user the later one is not tried before the earlier one is
finished. -/
def Follows : Note Callback → Note Callback → Prop
  | .accepted later _, .accepted earlier _ => earlier.taskId < later.taskId
  | .finished later, .finished earlier => later.taskId ≠ earlier.taskId
  | .tried later, .finished earlier => ∀ item ∈ later, item.taskId ≠ earlier.taskId
  | .tried later, .tried earlier => ∀ a ∈ earlier, ∀ b ∈ later, Shares a b → a.taskId ≤ b.taskId
  | .finished later, .tried earlier => ∀ a ∈ earlier, Shares a later → a.taskId ≤ later.taskId
  | _, _ => True

def Finished (log : List (Note Callback)) (id : TaskId) : Prop :=
  ∃ item, .finished item ∈ log ∧ item.taskId = id

structure Books (settings : Settings) (q : Queue Callback Value) : Prop where
  tables : Tables q
  units : q.units = ((q.live.entries.map (·.2.units)).sum : Nat)
  bytes : q.bytes = ((q.live.entries.map (·.2.size)).sum : Nat)
  capacity : q.units ≤ settings.capacity
  byteCapacity : q.bytes ≤ settings.byteCapacity
  items : ∀ id item, q.live.get? id = some item → item.taskId = id ∧ id < q.fresh
  queued : ∀ item ∈ q.pending, q.live.get? item.taskId = some item
  ordered : q.pending.Pairwise (fun a b => a.taskId < b.taskId)
  recorded : ∀ item key, .accepted item key ∈ q.log →
    (item.taskId, key, item.fingerprint) ∈ ledger q
  accounted : ∀ item key, .accepted item key ∈ q.log →
    item.taskId ∈ q.live.keys ∨ Finished q.log item.taskId ∨ item.taskId ∈ q.lost
  unfinished : ∀ id, id ∈ q.live.keys ∨ id ∈ q.lost → ¬Finished q.log id
  kept : ∀ id ∈ q.live.keys, id ∉ q.lost
  past : ∀ id, Finished q.log id ∨ id ∈ q.lost → id < q.fresh
  chronicle : q.log.Pairwise Follows
  separate : ∀ items, .tried items ∈ q.log → Separate items
  tried : ∀ items, .tried items ∈ q.log → ∀ item ∈ items, item.taskId < q.fresh ∧
    ∀ other ∈ q.pending, item.taskId < other.taskId
  idle : q.busy = false → ∀ id ∈ q.live.keys, ∃ item ∈ q.pending, item.taskId = id

theorem books_empty : Books settings (Queue.empty : Queue Callback Value) where
  tables := ⟨List.nodup_nil, List.nodup_nil, nofun, nofun⟩
  units := rfl
  bytes := rfl
  capacity := Int.natCast_nonneg _
  byteCapacity := Int.natCast_nonneg _
  items := nofun
  queued := nofun
  ordered := List.Pairwise.nil
  recorded := nofun
  accounted := nofun
  unfinished := by rintro _ (h | h) <;> cases h
  kept := nofun
  past := by
    rintro _ (⟨_, h, -⟩ | h) <;> cases h
  chronicle := List.Pairwise.nil
  separate := nofun
  tried := nofun
  idle := nofun

theorem Books.same (h : Books settings q) (hs : Same q q') : Books settings q' where
  tables := h.tables.same hs
  units := by rw [hs.units, hs.live, h.units]
  bytes := by rw [hs.bytes, hs.live, h.bytes]
  capacity := hs.units ▸ h.capacity
  byteCapacity := hs.bytes ▸ h.byteCapacity
  items id item hget := ⟨(h.items id item (hs.live ▸ hget)).1,
    (h.items id item (hs.live ▸ hget)).2.trans_le hs.fresh⟩
  queued item hitem := by
    rw [hs.live]
    exact h.queued item (hs.pending ▸ hitem)
  ordered := hs.pending ▸ h.ordered
  recorded item key hmem := hs.ledger.mem_iff.mpr (h.recorded item key (hs.log ▸ hmem))
  accounted := by
    rw [hs.log, hs.live, hs.lost]
    exact h.accounted
  unfinished := by
    rw [hs.log, hs.live, hs.lost]
    exact h.unfinished
  kept := by
    rw [hs.live, hs.lost]
    exact h.kept
  past id hid := by
    rw [hs.log, hs.lost] at hid
    exact (h.past id hid).trans_le hs.fresh
  chronicle := hs.log ▸ h.chronicle
  separate := hs.log ▸ h.separate
  tried items hmem item hitem := by
    rw [hs.pending]
    have hold := h.tried items (hs.log ▸ hmem) item hitem
    exact ⟨hold.1.trans_le hs.fresh, hold.2⟩
  idle := by
    rw [hs.busy, hs.live, hs.pending]
    exact h.idle

theorem text_ne_empty (key : RequestKey) : key.text ≠ "" := by
  cases key <;> simp [RequestKey.text]

theorem ledger_enqueue (h : Tables q) (submission : Submission Callback) :
    (ledger (q.enqueue submission)).Perm
      ((q.fresh, submission.key.map (·.text), submission.fingerprint) :: ledger q) := by
  have hnew : q.fresh ∉ q.tasks.keys := by
    intro hmem
    obtain ⟨e, he, heq⟩ := List.mem_map.mp hmem
    have hlt := h.old (entry e) (List.mem_map_of_mem (List.mem_append_left _ he))
    simp only [entry, heq, lt_irrefl] at hlt
  have hentries := Dict.entries_set_of_not_mem hnew
    (⟨submission.key.map (·.text), submission.fingerprint, .queued, none, none, none,
      submission.units⟩ : Row Value)
  simp only [ledger, Queue.enqueue, hentries, List.append_assoc, List.singleton_append]
  exact List.perm_middle.map entry

theorem Tables.enqueue (h : Tables q) (hnew : q.known (submission.key.map (·.text)) = none) :
    Tables (q.enqueue submission) := by
  have hperm := ledger_enqueue h submission
  have hmem : ∀ e, e ∈ ledger (q.enqueue submission) ↔
      e = (q.fresh, submission.key.map (·.text), submission.fingerprint) ∨ e ∈ ledger q :=
    fun e => hperm.mem_iff.trans List.mem_cons
  refine ⟨?_, ?_, fun e he => ?_, fun e he => ?_⟩
  · rw [(hperm.map _).nodup_iff, List.map_cons, List.nodup_cons]
    refine ⟨fun hold => ?_, h.ids⟩
    obtain ⟨e, he, heq⟩ := List.mem_map.mp hold
    exact (h.old e he).ne heq
  · rw [(hperm.filterMap _).nodup_iff]
    cases hkey : submission.key.map (·.text) with
    | none => exact h.keys
    | some key =>
      refine List.nodup_cons.mpr ⟨fun hold => ?_, h.keys⟩
      obtain ⟨⟨id, _, fingerprint⟩, he, rfl⟩ := List.mem_filterMap.mp hold
      obtain ⟨row, hknown, -⟩ := h.known he
      rw [hkey, hknown] at hnew
      cases hnew
  · obtain rfl | he := (hmem e).mp he
    · intro hempty
      obtain ⟨key, -, htext⟩ := Option.map_eq_some_iff.mp hempty
      exact text_ne_empty key htext
    · exact h.named e he
  · obtain rfl | he := (hmem e).mp he
    · exact Nat.lt_succ_self q.fresh
    · exact (h.old e he).trans (Nat.lt_succ_self q.fresh)

theorem finished_cons {note : Note Callback} {log : List (Note Callback)} {id : TaskId}
    (hnote : ∀ item, note ≠ .finished item) : Finished (note :: log) id ↔ Finished log id := by
  refine exists_congr (fun item => and_congr_left (fun _ => ?_))
  rw [List.mem_cons, or_iff_right (Ne.symm (hnote item))]

theorem Books.enqueue (h : Books settings q) (hnew : q.known (submission.key.map (·.text)) = none)
    (hunits : q.units + submission.units ≤ settings.capacity)
    (hbytes : q.bytes + submission.size ≤ settings.byteCapacity) :
    Books settings (q.enqueue submission) := by
  have hfresh : q.fresh ∉ q.live.keys := by
    intro hmem
    obtain ⟨item, hget⟩ := Dict.mem_keys_iff.mp hmem
    exact (h.items _ item hget).2.ne rfl
  have hpending : ∀ item ∈ q.pending, item.taskId < q.fresh := fun item hitem =>
    (h.items _ item (h.queued item hitem)).2
  have hmem : ∀ e, e ∈ ledger (q.enqueue submission) ↔
      e = (q.fresh, submission.key.map (·.text), submission.fingerprint) ∨ e ∈ ledger q :=
    fun e => (ledger_enqueue h.tables submission).mem_iff.trans List.mem_cons
  have hfinished : ∀ id, Finished (q.enqueue submission).log id ↔ Finished q.log id :=
    fun _ => finished_cons nofun
  have hkeys : ∀ id, id ∈ (q.enqueue submission).live.keys ↔ id = q.fresh ∨ id ∈ q.live.keys :=
    fun _ => Dict.mem_keys_set
  refine ⟨h.tables.enqueue hnew, ?_, ?_, hunits, hbytes, ?_, ?_, ?_, ?_, ?_, ?_, ?_, ?_,
    ?_, ?_, ?_, ?_⟩
  · simp [Queue.enqueue, Dict.entries_set_of_not_mem hfresh, h.units]
  · simp [Queue.enqueue, Dict.entries_set_of_not_mem hfresh, h.bytes]
  · intro id item hget
    rw [Queue.enqueue, Dict.get?_set] at hget
    split at hget
    next hid =>
      cases hget
      exact ⟨hid.symm, hid ▸ Nat.lt_succ_self q.fresh⟩
    · exact ⟨(h.items id item hget).1, (h.items id item hget).2.trans (Nat.lt_succ_self q.fresh)⟩
  · intro item hitem
    rw [Queue.enqueue, Dict.get?_set]
    obtain hitem | hitem := List.mem_append.mp hitem
    · rw [if_neg (hpending item hitem).ne]
      exact h.queued item hitem
    · cases List.mem_singleton.mp hitem
      exact if_pos rfl
  · refine List.pairwise_append.mpr ⟨h.ordered, List.pairwise_singleton _ _, ?_⟩
    rintro item hitem _ hother
    cases List.mem_singleton.mp hother
    exact hpending item hitem
  · rintro item key hlog
    obtain hlog | hlog := List.mem_cons.mp hlog
    · cases hlog
      exact (hmem _).mpr (.inl rfl)
    · exact (hmem _).mpr (.inr (h.recorded item key hlog))
  · intro item key hlog
    rw [hkeys, hfinished]
    obtain hlog | hlog := List.mem_cons.mp hlog
    · cases hlog
      exact .inl (.inl rfl)
    · exact (h.accounted item key hlog).imp_left .inr
  · intro id hid
    rw [hkeys] at hid
    rw [hfinished]
    obtain (rfl | hid) | hid := hid
    · exact fun hdone => (h.past q.fresh (.inl hdone)).ne rfl
    · exact h.unfinished id (.inl hid)
    · exact h.unfinished id (.inr hid)
  · intro id hid hlost
    obtain rfl | hid := (hkeys id).mp hid
    · exact (h.past q.fresh (.inr hlost)).ne rfl
    · exact h.kept id hid hlost
  · intro id hid
    rw [hfinished] at hid
    exact (h.past id hid).trans (Nat.lt_succ_self q.fresh)
  · refine List.pairwise_cons.mpr ⟨fun note hnote => ?_, h.chronicle⟩
    cases note with
    | accepted item key => exact h.tables.old _ (h.recorded item key hnote)
    | tried items => trivial
    | finished item => trivial
  · intro items hlog
    obtain hlog | hlog := List.mem_cons.mp hlog
    · cases hlog
    · exact h.separate items hlog
  · intro items hlog item hitem
    obtain hlog | hlog := List.mem_cons.mp hlog
    · cases hlog
    obtain ⟨hlt, hbefore⟩ := h.tried items hlog item hitem
    refine ⟨hlt.trans (Nat.lt_succ_self q.fresh), fun other hother => ?_⟩
    obtain hother | hother := List.mem_append.mp hother
    · exact hbefore other hother
    · cases List.mem_singleton.mp hother
      exact hlt
  · intro hbusy id hid
    obtain rfl | hid := (hkeys id).mp hid
    · exact ⟨_, List.mem_append_right _ (List.mem_singleton.mpr rfl), rfl⟩
    · obtain ⟨item, hitem, heq⟩ := h.idle hbusy id hid
      exact ⟨item, List.mem_append_left _ hitem, heq⟩

theorem Books.take (h : Books settings q) {waiting : List (Item Callback)}
    (hsub : waiting.Sublist q.pending) :
    Books settings { q with pending := waiting, busy := true } :=
  { h with
    tables := { h.tables with }
    queued := fun item hitem => h.queued item (hsub.subset hitem)
    ordered := h.ordered.sublist hsub
    tried := fun batch hlog item hitem =>
      ⟨(h.tried batch hlog item hitem).1,
        fun other hother => (h.tried batch hlog item hitem).2 other (hsub.subset hother)⟩
    idle := nofun }

theorem Books.try (h : Books settings q) {items : List (Item Callback)}
    (hheld : ∀ item ∈ items, q.live.get? item.taskId = some item) (hseparate : Separate items)
    (htaken : ∀ item ∈ items, ∀ other ∈ q.pending, item.taskId < other.taskId)
    (horder : ∀ batch, .tried batch ∈ q.log → ∀ a ∈ batch, ∀ b ∈ items, Shares a b →
      a.taskId ≤ b.taskId) :
    Books settings { q with log := .tried items :: q.log } := by
  have hfinished : ∀ id, Finished (.tried items :: q.log) id ↔ Finished q.log id :=
    fun _ => finished_cons nofun
  have hold : ∀ {item key}, .accepted item key ∈ .tried items :: q.log →
    .accepted item key ∈ q.log :=
    fun hlog => (List.mem_cons.mp hlog).resolve_left nofun
  refine { h with
    tables := { h.tables with }
    recorded := fun item key hlog => h.recorded item key (hold hlog)
    accounted := fun item key hlog => ?_
    unfinished := fun id hid => ?_
    past := fun id hid => ?_
    chronicle := List.pairwise_cons.mpr ⟨fun note hnote => ?_, h.chronicle⟩
    separate := fun batch hlog => ?_
    tried := fun batch hlog item hitem => ?_ }
  · rw [hfinished]
    exact h.accounted item key (hold hlog)
  · rw [hfinished]
    exact h.unfinished id hid
  · rw [hfinished] at hid
    exact h.past id hid
  · cases note with
    | accepted item key => trivial
    | tried batch => exact horder batch hnote
    | finished other =>
      intro item hitem heq
      exact h.unfinished item.taskId (.inl (Dict.mem_keys_iff.mpr ⟨item, hheld item hitem⟩))
        ⟨other, hnote, heq.symm⟩
  · obtain hlog | hlog := List.mem_cons.mp hlog
    · cases hlog
      exact hseparate
    · exact h.separate batch hlog
  · obtain hlog | hlog := List.mem_cons.mp hlog
    · cases hlog
      exact ⟨(h.items _ item (hheld item hitem)).2, htaken item hitem⟩
    · exact h.tried batch hlog item hitem

theorem finished_finish (item : Item Callback) (ending : Ending Value Error) (id : TaskId) :
    Finished (q.finish item ending).log id ↔ item.taskId = id ∨ Finished q.log id := by
  simp only [Finished, Queue.finish, List.mem_cons, Note.finished.injEq, or_and_right, exists_or,
    exists_eq_left]

theorem Books.finish (h : Books settings q) {item : Item Callback} (ending : Ending Value Error)
    (hget : q.live.get? item.taskId = some item)
    (htaken : ∀ other ∈ q.pending, item.taskId < other.taskId)
    (horder : ∀ batch, .tried batch ∈ q.log → ∀ a ∈ batch, Shares a item → a.taskId ≤ item.taskId) :
    Books settings (q.finish item ending) := by
  have hmem : item.taskId ∈ q.live.keys := Dict.mem_keys_iff.mpr ⟨item, hget⟩
  have hkeys : ∀ id, id ∈ (q.finish item ending).live.keys ↔ id ≠ item.taskId ∧ id ∈ q.live.keys :=
    fun _ => Dict.mem_keys_erase
  have hledger : ledger (q.finish item ending) = ledger q :=
    ledger_put item.taskId _ (fun _ => ⟨rfl, rfl⟩)
  have hold : ∀ {note}, (∀ other, note ≠ .finished other) → note ∈ (q.finish item ending).log →
    note ∈ q.log :=
    fun hnote hlog => (List.mem_cons.mp hlog).resolve_left (hnote item)
  have hsum : ∀ f : Item Callback → Nat, (q.live.entries.map (fun e => f e.2)).sum =
      f item + ((q.live.erase item.taskId).entries.map (fun e => f e.2)).sum :=
    fun f => ((Dict.perm_erase hget).map (fun e => f e.2)).sum_eq
  have hunits := h.units
  have hbytes := h.bytes
  have hcapacity := h.capacity
  have hbyteCapacity := h.byteCapacity
  rw [hsum (·.units)] at hunits
  rw [hsum (·.size)] at hbytes
  refine ⟨⟨hledger ▸ h.tables.ids, hledger ▸ h.tables.keys, hledger ▸ h.tables.named,
    hledger ▸ h.tables.old⟩, ?_, ?_, ?_, ?_, ?_, ?_, h.ordered, ?_, ?_, ?_, ?_, ?_, ?_, ?_, ?_, ?_⟩
  · simp only [Queue.finish]
    omega
  · simp only [Queue.finish]
    omega
  · simp only [Queue.finish]
    omega
  · simp only [Queue.finish]
    omega
  · intro id other hother
    rw [Queue.finish, Dict.get?_erase] at hother
    split at hother
    · cases hother
    · exact h.items id other hother
  · intro other hother
    rw [Queue.finish, Dict.get?_erase, if_neg (htaken other hother).ne']
    exact h.queued other hother
  · intro other key hlog
    rw [hledger]
    exact h.recorded other key (hold nofun hlog)
  · intro other key hlog
    rw [hkeys, finished_finish]
    by_cases heq : other.taskId = item.taskId
    · exact .inr (.inl (.inl heq.symm))
    obtain hlive | hdone | hlost := h.accounted other key (hold nofun hlog)
    · exact .inl ⟨heq, hlive⟩
    · exact .inr (.inl (.inr hdone))
    · exact .inr (.inr hlost)
  · intro id hid hdone
    rw [hkeys] at hid
    obtain rfl | hdone := (finished_finish item ending id).mp hdone
    · obtain ⟨hne, -⟩ | hlost := hid
      · exact hne rfl
      · exact h.kept _ hmem hlost
    · exact h.unfinished id (hid.imp_left (·.2)) hdone
  · exact fun id hid => h.kept id ((hkeys id).mp hid).2
  · intro id hid
    rw [finished_finish, or_assoc] at hid
    obtain rfl | hid := hid
    · exact (h.items _ item hget).2
    · exact h.past id hid
  · refine List.pairwise_cons.mpr ⟨fun note hnote => ?_, h.chronicle⟩
    cases note with
    | accepted other key => trivial
    | tried batch => exact horder batch hnote
    | finished other =>
      exact fun heq => h.unfinished item.taskId (.inl hmem) ⟨other, hnote, heq.symm⟩
  · exact fun batch hlog => h.separate batch (hold nofun hlog)
  · exact fun batch hlog => h.tried batch (hold nofun hlog)
  · exact fun hbusy id hid => h.idle hbusy id ((hkeys id).mp hid).2

theorem Books.crash (h : Books settings q) : Books settings q.crash where
  tables := { h.tables with }
  units := rfl
  bytes := rfl
  capacity := Int.natCast_nonneg _
  byteCapacity := Int.natCast_nonneg _
  items := nofun
  queued := nofun
  ordered := List.Pairwise.nil
  recorded := h.recorded
  accounted item key hlog := by
    obtain hlive | hdone | hlost := h.accounted item key hlog
    · exact .inr (.inr (List.mem_append_left _ hlive))
    · exact .inr (.inl hdone)
    · exact .inr (.inr (List.mem_append_right _ hlost))
  unfinished id hid := by
    obtain hid | hid := hid
    · cases hid
    · exact h.unfinished id (List.mem_append.mp hid)
  kept := nofun
  past id hid := by
    obtain hid | hid := hid
    · exact h.past id (.inl hid)
    obtain hid | hid := List.mem_append.mp hid
    · obtain ⟨item, hget⟩ := Dict.mem_keys_iff.mp hid
      exact (h.items id item hget).2
    · exact h.past id (.inr hid)
  chronicle := h.chronicle
  separate := h.separate
  tried items hlog item hitem := ⟨(h.tried items hlog item hitem).1, nofun⟩
  idle := nofun

end NodeManager.QueueBooks
