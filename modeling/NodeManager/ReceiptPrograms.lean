import NodeManager.ReceiptInvariant
import NodeManager.WorkerOutline

namespace NodeManager.ReceiptPrograms

open Dictionary Programs WriteQueue TaskQueue ReceiptInvariant WorkerOutline

variable {Callback Value Error : Type} {settings : Settings} {w v : Queue Callback Value}
  {item : Item Callback}

structure Held (w : Queue Callback Value) (item : Item Callback) : Prop where
  live : item.taskId ∈ w.live.keys
  taken : ∀ other ∈ w.pending, other.taskId ≠ item.taskId
  row : ∃ row, w.row item.taskId = some row ∧ row.fingerprint = item.fingerprint

theorem Held.frame (hh : Held w item) (hf : Frame w v) : Held v item := by
  refine ⟨hf.live _ hh.live, ?_, ?_⟩
  · intro other ho
    rcases hf.pending other ho with h | h
    · exact hh.taken other h
    · exact fun heq => h (heq ▸ hh.live)
  · rw [hf.rows _ hh.live]
    exact hh.row

/-- Facts about a task that other threads cannot change while the worker holds it. -/
class Lasting (P : Queue Callback Value → TaskId → Prop) : Prop where
  frame : ∀ {w v id}, Frame w v → P w id → P v id
  same : ∀ {w v id}, v.journal = w.journal → v.committed = w.committed → P w id → P v id

instance lasting_uncommitted : Lasting (Uncommitted : Queue Callback Value → TaskId → Prop) where
  frame hf hp := by
    refine ⟨fun t ht => hp.apart t (hf.journal t ht), ?_⟩
    intro c hc hchanged
    rcases hf.origin c hc with h | ⟨t, ht, rfl⟩
    · exact hp.uncommitted c h hchanged
    · exact Dict.get?_eq_none.mp (hp.apart t ht)
  same hj hc hp := ⟨hj ▸ hp.apart, hc ▸ hp.uncommitted⟩

instance lasting_committed : Lasting (Committed : Queue Callback Value → TaskId → Prop) where
  frame hf hp := by
    obtain ⟨c, hc, hid⟩ := hp.committed
    exact ⟨fun t ht => hp.apart t (hf.journal t ht), c, hf.committed c hc, hid⟩
  same hj hc hp := ⟨hj ▸ hp.apart, hc ▸ hp.committed⟩

instance lasting_true : Lasting (fun (_ : Queue Callback Value) (_ : TaskId) => True) where
  frame _ _ := trivial
  same _ _ _ := trivial

/-- The worker holds two lists of tasks; the second one is still to be tried. -/
structure Owned (P : Queue Callback Value → TaskId → Prop) (items rest : List (Item Callback))
    (w : Queue Callback Value) : Prop where
  consistent : Consistent w
  nodup : ((items ++ rest).map (·.taskId)).Nodup
  held : ∀ item ∈ items ++ rest, Held w item
  here : ∀ item ∈ items, P w item.taskId
  there : ∀ item ∈ rest, Uncommitted w item.taskId

variable {P : Queue Callback Value → TaskId → Prop} {items rest : List (Item Callback)}
  {part more : List (Item Callback)} {ending : Ending Value Error} {R : Queue Callback Value → Prop}
  {batch : Batch} {t : Transaction Value} {results : List Value}

theorem Owned.frame [hP : Lasting P] (ho : Owned P items rest w) (hv : Consistent v)
    (hf : Frame w v) :
    Owned P items rest v where
  consistent := hv
  nodup := ho.nodup
  held item hitem := (ho.held item hitem).frame hf
  here item hitem := hP.frame hf (ho.here item hitem)
  there item hitem := lasting_uncommitted.frame hf (ho.there item hitem)

theorem Held.same (hh : Held w item) (hrow : v.row item.taskId = w.row item.taskId)
    (hlive : v.live = w.live) (hpending : v.pending = w.pending) : Held v item :=
  ⟨hlive.symm ▸ hh.live, hpending.symm ▸ hh.taken, hrow.symm ▸ hh.row⟩

theorem Owned.weaken {Q : Queue Callback Value → TaskId → Prop} (ho : Owned P items rest w)
    (hs : part.Sublist items) (hQ : ∀ item ∈ part, P w item.taskId → Q w item.taskId) :
    Owned Q part rest w where
  consistent := ho.consistent
  nodup := ho.nodup.sublist ((hs.append_right rest).map _)
  held item hitem := ho.held item ((hs.append_right rest).subset hitem)
  here item hitem := hQ item hitem (ho.here item (hs.subset hitem))
  there := ho.there

theorem Owned.drop (ho : Owned P items rest w) : Owned Uncommitted [] rest w :=
  ho.weaken (List.nil_sublist items) nofun

theorem Owned.split (ho : Owned Uncommitted (part ++ more) rest w) :
    Owned Uncommitted part (more ++ rest) w where
  consistent := ho.consistent
  nodup := List.append_assoc part more rest ▸ ho.nodup
  held := List.append_assoc part more rest ▸ ho.held
  here item hitem := ho.here item (List.mem_append_left _ hitem)
  there item hitem := (List.mem_append.mp hitem).elim
    (fun h => ho.here item (List.mem_append_right _ h)) (ho.there item)

theorem Owned.next (ho : Owned Uncommitted [] (more ++ rest) w) :
    Owned Uncommitted more rest w where
  consistent := ho.consistent
  nodup := ho.nodup
  held := ho.held
  here item hitem := ho.there item (List.mem_append_left _ hitem)
  there item hitem := ho.there item (List.mem_append_right _ hitem)

abbrev Keeps {α : Type} (settings : Settings) (Q : α → Queue Callback Value → Prop)
    (E : Failure Error → Queue Callback Value → Prop) (p : Writer Callback Value Error α)
    (w : Queue Callback Value) : Prop :=
  Safe (queue settings) Consistent Q E p w

abbrev Leaves {α : Type} (Error : Type) (settings : Settings) (R : Queue Callback Value → Prop)
    (p : Writer Callback Value Error α) (w : Queue Callback Value) : Prop :=
  Keeps settings (fun _ => R) (fun _ => Consistent) p w

instance durable_consistent : Stays Error settings Consistent
    (Consistent : Queue Callback Value → Prop) :=
  ⟨fun event _ hw => (hw.occur settings event).1, fun _ hw => hw⟩

instance durable_owned [Lasting P] : Stays Error settings Consistent (Owned P items rest) :=
  ⟨fun event _ ho => ho.frame (ho.consistent.occur settings event).1
    (ho.consistent.occur settings event).2, fun _ ho => ho.consistent⟩

structure Fits (P : Queue Callback Value → TaskId → Prop) (state : TaskState) : Prop where
  succeeded : ∀ w id, P w id → state = .succeeded → ∃ c ∈ w.committed, id ∈ c.tasks
  kept : ∀ w id, P w id → ∀ c ∈ w.committed, c.changed = true → id ∈ c.tasks → state = .succeeded ∨
    InFlight state
  journal : ∀ w id, P w id → ∀ t receipt, w.journal = some (.batch t) →
    t.proof.get? id = some receipt → InFlight state

theorem fits_uncommitted {state : TaskState} (hs : state ≠ .succeeded) :
    Fits (Uncommitted : Queue Callback Value → TaskId → Prop) state where
  succeeded _ _ _ h := absurd h hs
  kept _ _ hp c hc hchanged hid := absurd hid (hp.uncommitted c hc hchanged)
  journal w id hp t receipt ht hget := by
    cases (hp.apart t ht).symm.trans hget

theorem fits_committed : Fits (Committed : Queue Callback Value → TaskId → Prop) .succeeded where
  succeeded _ _ hp _ := hp.committed
  kept _ _ _ _ _ _ _ := .inl rfl
  journal w id hp t receipt ht hget := by
    cases (hp.apart t ht).symm.trans hget

theorem fits_unknown : Fits (fun (_ : Queue Callback Value) (_ : TaskId) => True) .unknown where
  succeeded := nofun
  kept _ _ _ _ _ _ _ := .inr (.inr rfl)
  journal _ _ _ _ _ _ _ := .inr rfl

theorem Owned.finish [hP : Lasting P] (hfits : Fits P ending.state)
    (ho : Owned P (item :: items) rest w) :
    Owned P items rest (w.finish item ending) := by
  have hnodup := ho.nodup
  rw [List.cons_append, List.map_cons, List.nodup_cons] at hnodup
  have hne : ∀ other ∈ items ++ rest, other.taskId ≠ item.taskId := by
    intro other hother heq
    exact hnodup.1 (List.mem_map.mpr ⟨other, hother, heq⟩)
  have hmine := ho.held item List.mem_cons_self
  have hp := ho.here item List.mem_cons_self
  obtain ⟨row, hrow, hopen⟩ := ho.consistent.live _ hmine.live
  -- the task leaves the hands of the worker first, then its row is written
  have hreleased : Consistent { w with live := w.live.erase item.taskId } := by
    refine { ho.consistent with live := ?_, pending := ⟨ho.consistent.pending.1, ?_⟩ }
    · exact fun id hid => ho.consistent.live id (Dict.mem_keys_erase.mp hid).2
    intro other hother
    obtain ⟨hl, h⟩ := ho.consistent.pending.2 other hother
    exact ⟨Dict.mem_keys_erase.mpr ⟨hmine.taken other hother, hl⟩, h⟩
  have hconsistent : Consistent (w.finish item ending) := by
    have hput := @Consistent.put _ _ _ hreleased item.taskId row ending.state
      (fun row => { row with result := ending.result, reason := ending.reason }) hrow hopen
      (fun hid => absurd rfl (Dict.mem_keys_erase.mp hid).1) hmine.taken rfl
      (hfits.succeeded w _ hp)
      (fun c hc hchanged hid => (hfits.kept w _ hp c hc hchanged hid).imp id (fun h => ⟨h, rfl⟩))
      (fun t receipt ht hget => ⟨hfits.journal w _ hp t receipt ht hget, rfl⟩)
    exact { hput with }
  refine ⟨hconsistent, hnodup.2, ?_, ?_, ?_⟩
  · intro other hother
    have hheld := ho.held other (List.mem_cons_of_mem _ hother)
    refine ⟨Dict.mem_keys_erase.mpr ⟨hne other hother, hheld.live⟩, hheld.taken, ?_⟩
    obtain ⟨r, hr, hfingerprint⟩ := hheld.row
    exact ⟨r, (row_put_of_ne _ _ (hne other hother)).trans hr, hfingerprint⟩
  · exact fun other hother => hP.same (w := w) rfl rfl
      (ho.here other (List.mem_cons_of_mem _ hother))
  · exact fun other hother => lasting_uncommitted.same (w := w) rfl rfl (ho.there other hother)

theorem safe_finish [Lasting P] (hfits : Fits P ending.state)
    (ho : Owned P (item :: items) rest w) :
    Leaves Error settings (Owned P items rest) (WriteQueue.finish item ending) w :=
  safe_written (.finish item ending) (fun _ _ => rfl) ho (fun _ ho => ho.finish hfits)
    (fun _ _ ho => { ho.consistent with })

structure Started (batch : Batch) (items : List (Item Callback))
    (w : Queue Callback Value) : Prop where
  fresh : batch < w.fresh
  unused : ∀ c ∈ w.committed, c.changed = true → c.batch ≠ batch
  unopened : ∀ t, w.journal = some (.batch t) → t.batch ≠ batch
  rows : ∀ item ∈ items, ∃ row, w.row item.taskId = some row ∧ InFlight row.state ∧
    row.batch = some batch

theorem Started.frame (hs : Started batch items w) (ho : Owned P items rest w) (hf : Frame w v) :
    Started batch items v := by
  refine ⟨hs.fresh.trans_le hf.fresh, ?_, fun t ht => hs.unopened t (hf.journal t ht), ?_⟩
  · intro c hc hchanged
    rcases hf.origin c hc with h | ⟨t, ht, rfl⟩
    · exact hs.unused c h hchanged
    · exact hs.unopened t ht
  · intro item hitem
    rw [hf.rows _ (ho.held item (List.mem_append_left _ hitem)).live]
    exact hs.rows item hitem

instance durable_started :
    Stays Error settings Consistent
    (fun w : Queue Callback Value => Owned Uncommitted items rest w ∧ Started batch items w) := by
  refine ⟨fun event w h => ?_, fun w h => h.1.consistent⟩
  have ⟨hc, hf⟩ := h.1.consistent.occur settings event
  exact ⟨h.1.frame hc hf, h.2.frame h.1 hf⟩

structure Begun (w v : Queue Callback Value) : Prop where
  journal : v.journal = w.journal
  committed : v.committed = w.committed
  live : v.live = w.live
  pending : v.pending = w.pending
  fresh : v.fresh = w.fresh + 1

theorem get?_begin (ids : List TaskId) (batch : Batch) (w : Queue Callback Value) (j : TaskId) :
    (ids.foldl (fun v id => v.put id .running (fun row => { row with batch := some batch }))
      w).tasks.get? j =
      if j ∈ ids then (w.tasks.get? j).map
      (fun row => { row with state := .running, batch := some batch })
      else w.tasks.get? j := by
  induction ids generalizing w with
  | nil => simp
  | cons id ids ih =>
    rw [List.foldl_cons, ih, Queue.put, Dict.get?_modify]
    by_cases hj : j = id
    · subst hj
      cases w.tasks.get? j <;> simp
    · simp [hj]

theorem Owned.begin (ho : Owned Uncommitted items rest w) :
    Owned Uncommitted items rest (w.begin (items.map (·.taskId))) ∧
      Started w.fresh items (w.begin (items.map (·.taskId))) := by
  have hbump : Consistent { w with fresh := w.fresh + 1 } :=
    { ho.consistent with
      single := fun t ht => ⟨Nat.lt_succ_of_lt (ho.consistent.single t ht).1,
        (ho.consistent.single t ht).2⟩
      named := fun id row hrow => Nat.lt_succ_of_lt (ho.consistent.named id row hrow)
      numbered := fun c hc => Nat.lt_succ_of_lt (ho.consistent.numbered c hc) }
  have hfold : Consistent (w.begin (items.map (·.taskId))) ∧
      Begun w (w.begin (items.map (·.taskId))) := by
    refine @Runs.foldl_invariant _ _
      (fun v : Queue Callback Value => Consistent v ∧ Begun w v) _ _ _
      ⟨hbump, rfl, rfl, rfl, rfl, rfl⟩ ?_
    intro v id hid hv
    obtain ⟨item, hitem, rfl⟩ := List.mem_map.mp hid
    have hheld := ho.held item (List.mem_append_left _ hitem)
    have hfree := ho.here item hitem
    obtain ⟨row, hrow, hopen⟩ := hv.1.live _ (hv.2.live.symm ▸ hheld.live)
    refine ⟨hv.1.put hrow hopen (fun _ => rfl) (hv.2.pending.symm ▸ hheld.taken) rfl
      nofun ?_ ?_, ?_⟩
    · intro c hc hchanged hin
      exact absurd hin (hfree.uncommitted c (hv.2.committed ▸ hc) hchanged)
    · intro t receipt ht hget
      cases (hfree.apart t (hv.2.journal ▸ ht)).symm.trans hget
    · exact { hv.2 with }
  obtain ⟨hconsistent, hb⟩ := hfold
  have hget : ∀ item ∈ items ++ rest, ∃ row, w.row item.taskId = some row ∧
      (w.begin (items.map (·.taskId))).row item.taskId =
      some (if item.taskId ∈ items.map (·.taskId) then
        { row with state := .running, batch := some w.fresh } else row) := by
    intro item hitem
    obtain ⟨row, hrow, hopen⟩ := ho.consistent.live _ (ho.held item hitem).live
    refine ⟨row, hrow, row_of_hot ?_⟩
    rw [Queue.begin, get?_begin, ho.consistent.hot hrow hopen]
    split <;> rfl
  refine ⟨⟨hconsistent, ho.nodup, ?_, ?_, ?_⟩, ⟨?_, ?_, ?_, ?_⟩⟩
  · intro item hitem
    have hheld := ho.held item hitem
    refine ⟨hb.live.symm ▸ hheld.live, hb.pending.symm ▸ hheld.taken, ?_⟩
    obtain ⟨row, hrow, hbegun⟩ := hget item hitem
    obtain ⟨row', hrow', hf⟩ := hheld.row
    rw [hrow, Option.some.injEq] at hrow'
    subst hrow'
    refine ⟨_, hbegun, ?_⟩
    split <;> exact hf
  · exact fun item hitem => lasting_uncommitted.same hb.journal hb.committed (ho.here item hitem)
  · exact fun item hitem => lasting_uncommitted.same hb.journal hb.committed (ho.there item hitem)
  · rw [hb.fresh]
    exact Nat.lt_succ_self _
  · rw [hb.committed]
    exact fun c hc _ => (ho.consistent.numbered c hc).ne
  · rw [hb.journal]
    exact fun t ht => (ho.consistent.single t ht).1.ne
  · intro item hitem
    obtain ⟨row, -, hbegun⟩ := hget item (List.mem_append_left _ hitem)
    rw [if_pos (List.mem_map.mpr ⟨item, hitem, rfl⟩)] at hbegun
    exact ⟨_, hbegun, .inl rfl, rfl⟩

abbrev Attempts {α : Type} (settings : Settings) (Q : α → Queue Callback Value → Prop)
    (items rest : List (Item Callback)) (p : Writer Callback Value Error α)
    (w : Queue Callback Value) : Prop :=
  Keeps settings Q (Refused (Owned Uncommitted) (Owned (fun _ _ => True)) items rest) p w

theorem Owned.doubt (ho : Owned P items rest w) : Owned (fun _ _ => True) items rest w :=
  ho.weaken (List.Sublist.refl items) (fun _ _ _ => trivial)

structure Locked (batch : Batch) (items rest : List (Item Callback))
    (w : Queue Callback Value) : Prop where
  owned : Owned Uncommitted items rest w
  started : Started batch items w
  locked : w.locked = true
  journal : w.journal = none

instance durable_locked : Stays Error settings Consistent
    (fun w : Queue Callback Value => Locked batch items rest w) := by
  refine ⟨fun event w h => ?_, fun w h => h.owned.consistent⟩
  have ⟨hc, hf⟩ := h.owned.consistent.occur settings event
  exact ⟨h.owned.frame hc hf, h.started.frame h.owned hf,
    hf.locked.trans h.locked, (hf.guarded h.locked).1.trans h.journal⟩

def Tried (batch : Batch) (items rest : List (Item Callback)) (staged : Staged Value)
    (w : Queue Callback Value) : Prop :=
  staged.results.length = items.length ∧
    if staged.changed then Locked batch items rest w else Owned Committed items rest w

instance durable_tried (staged : Staged Value) :
    Stays Error settings Consistent
    (fun w : Queue Callback Value => Tried batch items rest staged w) := by
  unfold Tried
  split
  · exact Durable.pure_and _
  · exact Durable.pure_and _

theorem Owned.idle (ho : Owned Uncommitted items rest w) (hs : Started batch items w)
    (hj : w.journal = none) :
    Owned Committed items rest { w with
      committed := ⟨batch, items.map (·.taskId), false⟩ :: w.committed } := by
  have hconsistent : Consistent { w with
      committed := ⟨batch, items.map (·.taskId), false⟩ :: w.committed } := by
    refine { ho.consistent with
      succeeded := ?_, kept := ?_, single := ?_, receipts := ?_, numbered := ?_ }
    · intro id row hrow hstate
      obtain ⟨c, hc, hid⟩ := ho.consistent.succeeded id row hrow hstate
      exact ⟨c, List.mem_cons_of_mem _ hc, hid⟩
    · intro c hc hchanged
      rcases List.mem_cons.mp hc with rfl | hc
      · cases hchanged
      · exact ho.consistent.kept c hc hchanged
    · intro t ht
      cases hj.symm.trans ht
    · intro b proof hget
      rcases ho.consistent.receipts b proof hget with h | ⟨c, hc, h⟩
      · exact .inl h
      · exact .inr ⟨c, List.mem_cons_of_mem _ hc, h⟩
    · intro c hc
      rcases List.mem_cons.mp hc with rfl | hc
      · exact hs.fresh
      · exact ho.consistent.numbered c hc
  refine ⟨hconsistent, ho.nodup, fun item hitem => (ho.held item hitem).same rfl rfl rfl, ?_, ?_⟩
  · intro item hitem
    exact ⟨(ho.here item hitem).apart, _, List.mem_cons_self, List.mem_map.mpr ⟨item, hitem, rfl⟩⟩
  intro item hitem
  refine ⟨(ho.there item hitem).apart, ?_⟩
  intro c hc hchanged
  rcases List.mem_cons.mp hc with rfl | hc
  · cases hchanged
  · exact (ho.there item hitem).uncommitted c hc hchanged

theorem Owned.setMemory [hP : Lasting P] (ho : Owned P items rest w) (locked : Bool)
    (log : List (Note Callback)) : Owned P items rest { w with locked := locked, log := log } where
  consistent := { ho.consistent with }
  nodup := ho.nodup
  held item hitem := (ho.held item hitem).same rfl rfl rfl
  here item hitem := hP.same (w := w) rfl rfl (ho.here item hitem)
  there item hitem := lasting_uncommitted.same (w := w) rfl rfl (ho.there item hitem)

theorem safe_mutate (ho : Owned Uncommitted items rest w) (hs : Started batch items w) :
    Attempts settings (Tried batch items rest) items rest
      (ask (.mutate batch items) : Writer Callback Value Error (Staged Value)) w := by
  refine Safe.ask_replies (Op.mutate batch items)
    (P := fun w => Owned Uncommitted items rest w ∧ Started batch items w) ⟨ho, hs⟩ ?_
  rintro choice w ⟨ho, hs⟩
  change Replies _ _ (mutate choice batch items w)
  unfold mutate
  split
  · exact ho.doubt
  next hj =>
    rw [Bool.not_eq_true, Option.isSome_eq_false_iff, Option.isNone_iff_eq_none] at hj
    have htried : Owned Uncommitted items rest (w.tried items) := ho.setMemory w.locked _
    cases choice.course with
    | proceed =>
      cases hchanged : choice.changed with
      | true => exact ⟨List.length_map _, ho.setMemory true _, { hs with }, rfl, hj⟩
      | false => exact ⟨List.length_map _, htried.idle { hs with } hj⟩
    | fail error => exact htried
    | refuse message => exact htried.doubt
    | uncertain message => exact htried.doubt
    | reject index error =>
      dsimp only
      split
      next hindex => exact ⟨htried, hindex⟩
      · exact htried

structure Opened (t : Transaction Value) (items rest : List (Item Callback))
    (w : Queue Callback Value) : Prop where
  consistent : Consistent w
  nodup : ((items ++ rest).map (·.taskId)).Nodup
  held : ∀ item ∈ items ++ rest, Held w item
  covered : ∀ item ∈ items, item.taskId ∈ t.proof.keys
  uncommitted : ∀ item ∈ items, ∀ c ∈ w.committed, c.changed = true → item.taskId ∉ c.tasks
  there : ∀ item ∈ rest, Uncommitted w item.taskId
  journal : w.journal = some (.batch t)

theorem Opened.doubt (ho : Opened t items rest w) : Owned (fun _ _ => True) items rest w :=
  ⟨ho.consistent, ho.nodup, ho.held, fun _ _ => trivial, ho.there⟩

instance durable_opened :
    Stays Error settings Consistent
    (fun w : Queue Callback Value => Opened t items rest w ∧ w.locked = true) := by
  refine ⟨fun event w h => ?_, fun w h => h.1.consistent⟩
  obtain ⟨ho, hl⟩ := h
  have ⟨hc, hf⟩ := ho.consistent.occur settings event
  refine ⟨⟨hc, ho.nodup,
    fun item hitem => (ho.held item hitem).frame hf, ho.covered, ?_,
    fun item hitem => lasting_uncommitted.frame hf (ho.there item hitem),
    (hf.guarded hl).1.trans ho.journal⟩, hf.locked.trans hl⟩
  exact (hf.guarded hl).2 ▸ ho.uncommitted

theorem get?_proofOf (entries : List (Item Callback × Value)) (proof : Dict TaskId (Proof Value))
    (id : TaskId) (receipt : Proof Value)
    (h : (entries.foldl (fun proof entry => proof.set entry.1.taskId ⟨entry.1.fingerprint, entry.2⟩)
      proof).get? id =
      some receipt) :
    (∃ entry ∈ entries, entry.1.taskId = id ∧ entry.1.fingerprint = receipt.fingerprint) ∨
      proof.get? id = some receipt := by
  induction entries generalizing proof with
  | nil => exact .inr h
  | cons entry entries ih =>
    rcases ih _ h with ⟨e, he, hid⟩ | hset
    · exact .inl ⟨e, List.mem_cons_of_mem _ he, hid⟩
    rw [Dict.get?_set] at hset
    split at hset
    next heq =>
      cases hset
      exact .inl ⟨entry, List.mem_cons_self, heq.symm, rfl⟩
    · exact .inr hset

theorem receipt_proofOf {id : TaskId} {receipt : Proof Value}
    (h : (proofOf items results).get? id = some receipt) :
    ∃ item ∈ items, item.taskId = id ∧ item.fingerprint = receipt.fingerprint := by
  rcases get?_proofOf _ _ _ _ h with ⟨entry, he, hid⟩ | hempty
  · exact ⟨entry.1, (List.of_mem_zip he).1, hid⟩
  · cases hempty

theorem mem_keys_foldl_set (entries : List (Item Callback × Value))
    (proof : Dict TaskId (Proof Value)) (id : TaskId)
    (h : id ∈ entries.map (·.1.taskId) ∨ id ∈ proof.keys) :
    id ∈ (entries.foldl (fun proof entry => proof.set entry.1.taskId ⟨entry.1.fingerprint, entry.2⟩)
      proof).keys := by
  induction entries generalizing proof with
  | nil => simpa using h
  | cons entry entries ih =>
    apply ih
    rw [Dict.mem_keys_set]
    rw [List.map_cons, List.mem_cons, or_assoc] at h
    rcases h with h | h | h
    · exact .inr (.inl h)
    · exact .inl h
    · exact .inr (.inr h)

theorem covered_proofOf (hlen : results.length = items.length) :
    ∀ item ∈ items, item.taskId ∈ (proofOf items results).keys := by
  intro item hitem
  apply mem_keys_foldl_set
  left
  have hfst : (items.zip results).map Prod.fst = items := List.map_fst_zip hlen.ge
  obtain ⟨entry, he, rfl⟩ := List.mem_map.mp
    (hfst.symm ▸ hitem : item ∈ (items.zip results).map Prod.fst)
  exact List.mem_map.mpr ⟨entry, he, rfl⟩

theorem Locked.opened (hl : Locked batch items rest w) (hlen : results.length = items.length) :
    Opened ⟨batch, proofOf items results⟩ items rest { w with
      journal := some (.batch ⟨batch, proofOf items results⟩) } := by
  have ho := hl.owned
  have hnone : ∀ item ∈ rest, (proofOf items results).get? item.taskId = none := by
    intro item hitem
    by_contra hsome
    obtain ⟨receipt, hget⟩ := Option.ne_none_iff_exists'.mp hsome
    obtain ⟨other, hother, hid, -⟩ := receipt_proofOf hget
    have hdisjoint := (List.nodup_append.mp (List.map_append ▸ ho.nodup)).2.2
    exact hdisjoint _ (List.mem_map.mpr ⟨other, hother, rfl⟩) _
      (List.mem_map.mpr ⟨item, hitem, rfl⟩) hid
  refine ⟨?_, ho.nodup, fun item hitem => (ho.held item hitem).same rfl rfl rfl,
    covered_proofOf hlen, fun item hitem => (ho.here item hitem).uncommitted, ?_, rfl⟩
  · refine { ho.consistent with journal := ?_, single := ?_, receipts := ?_ }
    · rintro t ⟨⟩ id receipt hget
      obtain ⟨item, hitem, rfl, hf⟩ := receipt_proofOf hget
      obtain ⟨row, hrow, hflight, hb⟩ := hl.started.rows item hitem
      obtain ⟨row', hrow', hfingerprint⟩ := (ho.held item (List.mem_append_left _ hitem)).row
      rw [hrow, Option.some.injEq] at hrow'
      exact ⟨row, hrow, hflight, hb, hf.symm.trans (hrow' ▸ hfingerprint.symm)⟩
    · rintro t ⟨⟩
      exact ⟨hl.started.fresh, hl.started.unused⟩
    · intro b proof hget
      rcases ho.consistent.receipts b proof hget with ⟨t, ht, -⟩ | h
      · cases hl.journal.symm.trans ht
      · exact .inr h
  · intro item hitem
    refine ⟨?_, (ho.there item hitem).uncommitted⟩
    rintro t ⟨⟩
    exact hnone item hitem

theorem Opened.committed (ho : Opened t items rest w) :
    Owned Committed items rest (w.commit t) where
  consistent := ho.consistent.commit ho.journal
  nodup := ho.nodup
  held item hitem := (ho.held item hitem).same rfl rfl rfl
  here item hitem := ⟨nofun, _, List.mem_cons_self, ho.covered item hitem⟩
  there item hitem := by
    refine ⟨nofun, ?_⟩
    intro c hc hchanged
    rcases List.mem_cons.mp hc with rfl | hc
    · exact Dict.get?_eq_none.mp ((ho.there item hitem).apart t ho.journal)
    · exact (ho.there item hitem).uncommitted c hc hchanged

theorem Opened.undone (ho : Opened t items rest w) : Owned Uncommitted items rest (w.undo t) where
  consistent := ho.consistent.undo ho.journal
  nodup := ho.nodup
  held item hitem := (ho.held item hitem).same rfl rfl rfl
  here item hitem := ⟨nofun, ho.uncommitted item hitem⟩
  there item hitem := ⟨nofun, (ho.there item hitem).uncommitted⟩

theorem safe_openJournal (hl : Locked batch items rest w) (hlen : results.length = items.length) :
    Attempts settings (fun _ w => Opened ⟨batch, proofOf items results⟩ items rest w ∧
      w.locked = true) items rest (ask (.openJournal ⟨batch, proofOf items results⟩) :
      Writer Callback Value Error Unit) w := by
  refine Safe.ask_replies (Op.openJournal _) hl (fun choice w hl => ?_)
  change Replies _ _ (openJournal choice _ w)
  unfold openJournal
  cases choice.course with
  | proceed => exact ⟨hl.opened hlen, hl.locked⟩
  | fail error => exact hl.owned.setMemory false _
  | reject index error => exact hl.owned.setMemory false _
  | refuse message => exact hl.owned.doubt.setMemory false _
  | uncertain message => exact (hl.opened hlen).doubt.setMemory false _

theorem Opened.written (ho : Opened t items rest w) :
    Opened t items rest { w with receipts := w.receipts.set t.batch t.proof } := by
  refine ⟨?_, ho.nodup, fun item hitem => (ho.held item hitem).same rfl rfl rfl, ho.covered,
    ho.uncommitted, fun item hitem =>
    lasting_uncommitted.same (w := w) rfl rfl (ho.there item hitem), ho.journal⟩
  refine { ho.consistent with kept := ?_, receipts := ?_ }
  · intro c hc hchanged id hid
    refine ho.consistent.kept_of_receipts
      (v := { w with receipts := w.receipts.set t.batch t.proof }) rfl hc hchanged hid ?_
    intro _ _ _ _
    exact (Dict.get?_set _ _ _ _).trans
      (if_neg ((ho.consistent.single t ho.journal).2 c hc hchanged))
  intro b proof hget
  simp only [Dict.get?_set] at hget
  split at hget
  next heq => exact .inl ⟨t, ho.journal, heq.symm⟩
  · exact ho.consistent.receipts b proof hget

theorem safe_settle (ho : Opened t items rest w ∧ w.locked = true) :
    Attempts settings (fun _ => Owned Committed items rest) items rest
      (ask (.settle t) : Writer Callback Value Error Unit) w := by
  refine Safe.ask_replies (Op.settle t)
    (P := fun w => Opened t items rest w ∧ w.locked = true) ho ?_
  rintro choice w ⟨ho, -⟩
  change Replies _ _ (settle choice w)
  have hcommit : w.resolve true = w.commit t := by rw [Queue.resolve, ho.journal]; rfl
  have hundo : w.resolve false = w.undo t := by rw [Queue.resolve, ho.journal]; rfl
  unfold settle
  rw [hcommit, hundo]
  cases choice.course with
  | proceed => exact ho.committed.setMemory false _
  | fail error => exact ho.undone.setMemory false _
  | reject index error => exact ho.undone.setMemory false _
  | refuse message => exact ho.doubt.setMemory false _
  | uncertain message => exact ho.doubt.setMemory false _

theorem safe_publish (hl : Locked batch items rest w) (hlen : results.length = items.length) :
    Attempts settings (fun _ => Owned Committed items rest) items rest
      (publish ⟨batch, proofOf items results⟩ : Writer Callback Value Error Unit) w := by
  apply Safe.seq (safe_openJournal hl hlen)
  intro _ w ho
  have hwrite : Keeps settings (fun _ w => Opened ⟨batch, proofOf items results⟩ items rest w ∧
      w.locked = true) (fun (_ : Failure Error) w =>
      Opened ⟨batch, proofOf items results⟩ items rest w ∧
      w.locked = true) (ask (.writeRecords ⟨batch, proofOf items results⟩)) w :=
    safe_written (.writeRecords _)
      (R := fun w => Opened ⟨batch, proofOf items results⟩ items rest w ∧ w.locked = true)
      (fun _ _ => rfl) ho (fun w h => ⟨h.1.written, h.2⟩) (fun _ _ h => h)
  apply Safe.seq hwrite.attempt
  intro written w ho
  cases written with
  | ok _ => exact safe_settle ho
  | error _ => exact safe_settle ho

theorem safe_apply (ho : Owned Uncommitted items rest w) :
    Attempts settings (fun results w => Owned Committed items rest w ∧
      results.length = items.length) items rest (apply items :
      Writer Callback Value Error (List Value)) w := by
  have hmode : Attempts settings (fun _ => Owned Uncommitted items rest) items rest
      (ask .checkMode : Writer Callback Value Error Bool) w :=
    Safe.ask_replies Op.checkMode ho (fun _ _ ho => ho)
  apply Safe.seq hmode
  intro same w ho
  cases same with
  | false => exact Safe.raise ho.doubt
  | true =>
    have hbegin : Attempts settings
        (fun batch w => Owned Uncommitted items rest w ∧ Started batch items w) items rest
        (ask (.begin (items.map (·.taskId))) : Writer Callback Value Error Batch) w :=
      safe_written (.begin _) (fun _ _ => rfl) ho (fun _ ho => ho.begin) (fun _ _ ho => ho)
    apply Safe.seq hbegin
    rintro batch w ⟨ho, hs⟩
    apply Safe.seq (safe_mutate ho hs)
    rintro staged w ⟨hlen, htried⟩
    split at htried
    next hchanged =>
      simp only [hchanged, ↓reduceIte]
      apply Safe.seq (safe_publish htried hlen)
      exact fun _ w ho => Safe.ret ⟨ho, hlen⟩
    next hchanged =>
      simp only [hchanged, Bool.false_eq_true, ↓reduceIte]
      exact Safe.ret ⟨htried, hlen⟩

end NodeManager.ReceiptPrograms
