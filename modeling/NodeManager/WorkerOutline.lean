import NodeManager.TaskQueue

namespace NodeManager.WorkerOutline

open Programs WriteQueue TaskQueue

variable {Callback Value Error : Type} {settings : Settings} {w : Queue Callback Value}
  {C R : Queue Callback Value → Prop} {E : Failure Error → Queue Callback Value → Prop}
  {items rest : List (Item Callback)}

/-- An assertion that the other threads keep, and under which the process may end. -/
abbrev Stays (Error : Type) (settings : Settings) (C R : Queue Callback Value → Prop) : Prop :=
  Durable (queue settings : System (Queue Callback Value) (@Answer Callback Value Error)
    (Failure Error)) C R

section Answers

variable (op : Op Callback Value Error)
  {Q : Answer op → Queue Callback Value → Prop} [Stays Error settings C R]
  [∀ a, Stays Error settings C (Q a)] [∀ e, Stays Error settings C (E e)]
  {f : Queue Callback Value → Answer op} {g failed : Queue Callback Value → Queue Callback Value}

theorem safe_effect (heffect : ∀ choice w,
    respond settings choice op w = (.ok (f w), g w)) (hw : R w) (hok : ∀ w, R w → Q (f w) (g w)) :
    Safe (queue settings) C Q E (ask op) w :=
  Safe.ask_replies op hw (fun choice w hw =>
    (congrArg (Replies Q E) (heffect choice w)).mpr (hok w hw))

theorem safe_written (heffect : ∀ choice w,
    respond settings choice op w = written choice (failed w) (f w, g w)) (hw : R w) (hok :
    ∀ w, R w → Q (f w) (g w)) (herr : ∀ error w, R w → E (.exception error) (failed w)) :
    Safe (queue settings) C Q E (ask op) w := by
  refine Safe.ask_replies op hw (fun choice w hw =>
    (congrArg (Replies Q E) (heffect choice w)).mpr ?_)
  unfold written
  split
  next error _ => exact herr error w hw
  · exact hok w hw

end Answers

section Cleanup

variable [hd : Stays Error settings C R] [∀ e, Stays Error settings C (E e)]
  (hbroken : ∀ error w, C w → E (.exception error) { w with broken := true })
  (hclean : ∀ w batch, R w → R (w.cleanupReceipt batch))
include hbroken hclean

theorem safe_cleanupEach (batches : List Batch) (hw : R w) :
    Safe (queue settings) C (fun _ => R) E
    (Prog.forEach (fun batch => ask (.cleanupReceipt batch)) batches) w :=
  Safe.forEach (I := fun _ => R) hw (fun batch _ _ _ hw =>
    safe_written (.cleanupReceipt batch) (fun _ _ => rfl) hw (fun w hw => hclean w batch hw)
      (fun error w hw => hbroken error w (hd.crash w hw)))

theorem safe_cleanupReceipts (batches : List Batch) (hw : R w) :
    Safe (queue settings) C (fun _ => R) E (cleanupReceipts batches) w := by
  apply Safe.seq (safe_cleanupEach hbroken hclean batches hw)
  intro _ w hw
  have hlist : Safe (queue settings) C (fun _ => R) E (ask .listReceipts) w :=
    safe_effect .listReceipts (fun _ _ => rfl) hw (fun _ hw => hw)
  apply Safe.seq hlist
  exact fun listed w hw => safe_cleanupEach hbroken hclean (listed.take 256) hw

theorem safe_cleanup (hw : R w) : Safe (queue settings) C (fun _ => R) E (cleanup items) w := by
  have hbatches : Safe (queue settings) C (fun _ => R) E
    (ask (.batches (items.map (·.taskId)))) w :=
    safe_effect (.batches _) (fun _ _ => rfl) hw (fun _ hw => hw)
  apply Safe.seq hbatches
  exact fun batches w hw => safe_cleanupReceipts hbroken hclean batches hw

end Cleanup

/-- What the worker has in hand: the tasks it works on, and the rest of its batch. -/
abbrev Hands (Callback Value : Type) :=
  List (Item Callback) → List (Item Callback) → Queue Callback Value → Prop

variable {held kept doubted : Hands Callback Value}

/-- What a failed attempt leaves. After a rejection or a proved roll-back the tasks are still to be
done. -/
def Refused (held doubted : Hands Callback Value) (items rest : List (Item Callback))
    (failure : Failure Error) (w : Queue Callback Value) : Prop :=
  match failure with
  | .batchRejected index _ => held items rest w ∧ index < items.length
  | .recoveryRequired _ => doubted items rest w
  | .exception _ => held items rest w

instance durable_refused [hh : Stays Error settings C (held items rest)]
    [hd : Stays Error settings C (doubted items rest)] (failure : Failure Error) :
    Stays Error settings C (Refused held doubted items rest failure) := by
  cases failure with
  | batchRejected index error => exact Durable.and_pure _
  | recoveryRequired message => exact hd
  | exception error => exact hh

/-- An outline of the worker's rounds: what holds while it works on some tasks (`held`), once they
are published (`kept`), and while it cannot tell whether they are (`doubted`). -/
structure Outline (settings : Settings) (C : Queue Callback Value → Prop)
    (E : Failure Error → Queue Callback Value → Prop)
    (held kept doubted : Hands Callback Value) : Prop where
  split : ∀ {part more rest w}, held (part ++ more) rest w → held part (more ++ rest) w
  next : ∀ {more rest w}, held [] (more ++ rest) w → held more rest w
  settled : ∀ {rest w}, kept [] rest w → held [] rest w
  lost : ∀ {rest w}, doubted [] rest w → held [] rest w
  apply : ∀ {items rest w}, held items rest w → Safe (queue settings) C
    (fun results w => kept items rest w ∧ results.length = items.length)
    (Refused held doubted items rest) (apply items : Writer Callback Value Error (List Value)) w
  finish : ∀ {item items rest w} {ending : Ending Value Error}, ending.state ≠ .succeeded →
    held (item :: items) rest w → Safe (queue settings) C (fun _ => held items rest) E
    (WriteQueue.finish item ending) w
  succeed : ∀ {item items rest w} result, kept (item :: items) rest w →
    Safe (queue settings) C (fun _ => kept items rest) E
    (WriteQueue.finish item (succeeded result)) w
  doubt : ∀ {item items rest w} failure, doubted (item :: items) rest w →
    Safe (queue settings) C (fun _ => doubted items rest) E
    (WriteQueue.finish item (unknown failure)) w
  pause : ∀ {items rest w}, doubted items rest w → doubted items rest { w with paused := true }
  clean : ∀ {rest} w batch, held [] rest w → held [] rest (w.cleanupReceipt batch)
  failing : ∀ failure w batch, E failure w → E failure (w.cleanupReceipt batch)
  broken : ∀ error w, C w → E (.exception error) { w with broken := true }
  awake : ∀ w, held [] [] w → held [] [] { w with busy := false }
  collect : ∀ w, held [] [] w → held (collect settings.batchSize w.pending).1 []
    { w with pending := (collect settings.batchSize w.pending).2, busy := true }

variable [∀ items rest, Stays Error settings C (held items rest)]
  (o : Outline settings C E held kept doubted)
include o

theorem Outline.safe_finishAll {ending : Ending Value Error} (hstate : ending.state ≠ .succeeded)
    (hw : held items rest w) : Safe (queue settings) C (fun _ => held [] rest) E
    (finishAll ending items) w :=
  Safe.forEach (I := fun items => held items rest) hw (fun _ _ _ _ hw => o.finish hstate hw)

variable [∀ failure, Stays Error settings C (E failure)]

theorem Outline.safe_rejected {process : List (Item Callback) → Writer Callback Value Error Unit}
    {depth : Nat} (hprocess : ∀ {items rest w}, items.length ≤ depth → held items rest w →
      Safe (queue settings) C (fun _ => held [] rest) E (process items) w)
    (hlength : items.length ≤ depth + 1) {index : Nat} (hindex : index < items.length)
    (error : Error) (hw : held items rest w) :
    Safe (queue settings) C (fun _ => held [] rest) E
    (processRejected process items index error) w := by
  have hsplit : held (items.take index) (items.drop index ++ rest) w :=
    o.split ((List.take_append_drop index items).symm ▸ hw)
  apply Safe.seq (Q := fun _ => held [] (items.drop index ++ rest))
  · refine Safe.when (fun _ => hprocess ?_ hsplit) (fun hzero => ?_)
    · rw [List.length_take]
      omega
    · obtain rfl := Nat.eq_zero_of_not_pos hzero
      exact hsplit
  intro _ w hw
  rw [List.drop_eq_getElem?_toList_append, List.append_assoc] at hw
  apply Safe.seq (o.safe_finishAll TaskState.noConfusion (o.next hw))
  intro _ w hw
  refine Safe.when (fun _ => ?_) (fun hend => ?_)
  · have hpaused : Safe (queue settings) C (fun _ => held [] (items.drop (index + 1) ++ rest)) E
      (ask .paused) w :=
      safe_effect .paused (fun _ _ => rfl) hw (fun _ hw => hw)
    apply Safe.seq hpaused
    intro paused w hw
    cases paused with
    | true => exact o.safe_finishAll nofun (o.next hw)
    | false =>
      refine hprocess ?_ (o.next hw)
      rw [List.length_drop]
      omega
  · rwa [List.drop_eq_nil_of_le (Nat.le_of_not_lt hend), List.nil_append] at hw

variable [∀ items rest, Stays Error settings C (kept items rest)]
  [∀ items rest, Stays Error settings C (doubted items rest)]

theorem Outline.safe_process (depth : Nat) (hlength : items.length ≤ depth)
    (hw : held items rest w) :
    Safe (queue settings) C (fun _ => held [] rest) E (processWithin depth items) w := by
  induction depth generalizing items rest w with
  | zero =>
    rw [List.eq_nil_of_length_eq_zero (Nat.le_zero.mp hlength)] at hw
    exact Safe.ret hw
  | succ depth ih =>
    apply Safe.ensure (Q := fun _ => held [] rest) (E := E)
    · apply Safe.seq (o.apply hw).attempt
      intro outcome w hw
      match outcome, hw with
      | .ok results, ⟨hw, hresults⟩ =>
        have hfirst : (items.zip results).map Prod.fst = items := List.map_fst_zip hresults.ge
        refine Safe.mono ?_ (fun _ h => h) (fun _ _ => o.settled) (fun _ _ h => h)
        exact Safe.forEach (I := fun entries : List (Item Callback × Value) =>
          kept (entries.map Prod.fst) rest) (hfirst.symm ▸ hw) (fun entry _ _ _ hw =>
          o.succeed entry.2 hw)
      | .error (.batchRejected index error), ⟨hw, hindex⟩ =>
        exact o.safe_rejected ih hlength hindex error hw
      | .error (.recoveryRequired message), hw =>
        have hpause : Safe (queue settings) C (fun _ => doubted items rest) E (ask .pause) w :=
          safe_effect .pause (fun _ _ => rfl) hw (fun _ => o.pause)
        apply Safe.seq hpause
        intro _ w hw
        refine Safe.mono ?_ (fun _ h => h) (fun _ _ => o.lost) (fun _ _ h => h)
        exact Safe.forEach (I := fun items => doubted items rest) hw
          (fun _ _ _ _ hw => o.doubt _ hw)
      | .error (.exception error), hw => exact o.safe_finishAll nofun hw
    · exact fun _ w hw => safe_cleanup o.broken o.clean hw
    · exact fun failure w hw => safe_cleanup o.broken (o.failing failure) hw

theorem Outline.safe_rounds (n : Nat) (hw : held [] [] w) :
    Safe (queue settings) C (fun _ => held [] []) E (rounds n) w := by
  induction n generalizing w with
  | zero => exact Safe.ret hw
  | succ n ih =>
    have hawake : Safe (queue settings) C (fun _ => held [] []) E (ask .awake) w :=
      safe_effect .awake (fun _ _ => rfl) hw o.awake
    apply Safe.seq hawake
    intro awake w hw
    cases awake with
    | false => exact ih hw
    | true =>
      have hcollect : Safe (queue settings) C (fun batch => held (batch.getD []) []) E
          (ask .collect) w := by
        refine Safe.ask_replies Op.collect hw (fun choice w hw => ?_)
        change Replies _ _ (respond settings choice .collect w)
        simp only [respond]
        split
        · exact hw
        · exact o.collect w hw
      apply Safe.seq hcollect
      intro batch w hw
      cases batch with
      | none => exact Safe.ret hw
      | some items =>
        apply Safe.seq (o.safe_process items.length le_rfl hw)
        exact fun _ w hw => ih hw

end NodeManager.WorkerOutline
