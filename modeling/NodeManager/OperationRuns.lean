import NodeManager.OperationFencing

namespace NodeManager.OperationRuns

open OperationFencing OperationStore Runs Threads

variable {Payload Hash Worker : Type} [DecidableEq Hash] [DecidableEq Worker]

def Needs (op : Op Hash) (w : Store Hash Worker) : Prop :=
  match op with
  | .apply o _ => Current o w
  | _ => True

def rules (digest : Digest Payload Hash) :
    Rules (digest.machine : Machine (Store Hash Worker) Worker _ _ _ _) where
  Inv := Inv digest
  May := May
  Needs _ := Needs

variable {digest : Digest Payload Hash} {v : Worker} {o : Operation} {h : Hash}
  {w a b : Store Hash Worker} {payload : Payload} {P : Store Hash Worker → Prop}

structure Locked (digest : Digest Payload Hash) (v : Worker) (s : Scope)
    (w : Store Hash Worker) : Prop where
  inv : Inv digest w
  held : w.holder s = some v

structure Holding (digest : Digest Payload Hash) (v : Worker) (o : Operation) (h : Hash)
    (w : Store Hash Worker) : Prop extends Locked digest v o.scope w where
  bound : Bound o h w

/-- The operation may be invoked, and nobody else can invoke it. -/
structure Ready (digest : Digest Payload Hash) (v : Worker) (o : Operation) (h : Hash)
    (w : Store Hash Worker) : Prop extends Mine digest v o h w where
  retryable : Retryable o h w.log

instance stable_inv : Stable (rules digest : Rules
    (digest.machine : Machine (Store Hash Worker) Worker _ _ _ _)) v (Inv digest) := Stable.inv

instance stable_locked {s : Scope} : Stable (rules digest) v (Locked digest v s) :=
  ⟨fun _ hne _ _ ha hinv hmay => ⟨hinv, (hmay.locks s v (Ne.symm hne)).mp ha.held⟩⟩

instance stable_holding : Stable (rules digest) v (Holding digest v o h) :=
  ⟨fun u hne a b ha hinv hmay => ⟨stable_locked.keep u hne a b ha.toLocked hinv hmay,
    hmay.bound o h ha.bound⟩⟩

instance stable_mine : Stable (rules digest) v (Mine digest v o h) := by
  refine ⟨fun u hne a b ha hinv hmay => ?_⟩
  refine ⟨hinv, (hmay.locks o.scope v (Ne.symm hne)).mp ha.held, ?_, hmay.bound o h ha.bound⟩
  rw [Current, hmay.fences o.scope (not_held hne ha.held)]
  exact ha.current

instance stable_ready : Stable (rules digest) v (Ready digest v o h) := by
  refine ⟨fun u hne a b ha hinv hmay => ⟨stable_mine.keep u hne a b ha.toMine hinv hmay, ?_⟩⟩
  obtain ⟨events, hlog, hevents⟩ := hmay.log
  rw [hlog]
  apply ha.retryable.append
  intro o' h' r hmem hid
  obtain ⟨hheld, hbound⟩ := hevents o' h' r hmem
  obtain ⟨rfl, -⟩ := ha.bound.unique hbound hid
  exact not_held hne ha.held hheld

abbrev Leaves {α : Type} (digest : Digest Payload Hash) (v : Worker)
    (Q : α → Store Hash Worker → Prop) (p : Program Hash α) (w : Store Hash Worker) : Prop :=
  Secure (rules digest) v Q (fun _ => Inv digest) p w

theorem secure_lock (hinv : Inv digest w) (s : Scope) :
    Leaves digest v (fun _ => Locked digest v s) (ask (.lock s)) w := by
  refine Secure.ask (Op.lock s) hinv ?_
  intro w hw
  refine ⟨trivial, ?_⟩
  intro choice reply w' hreply
  simp only [Digest.machine, respond] at hreply
  split at hreply
  next hfree =>
    cases hreply
    have hinv' : Inv digest { w with holder := Function.update w.holder s (some v) } :=
      { hw with }
    refine ⟨hinv', ⟨?_, fun _ _ => rfl, fun _ => le_rfl, fun _ _ hb => hb, [], rfl, by simp⟩,
      hinv', by simp⟩
    intro s' u hne
    by_cases hs : s' = s
    · subst hs
      simp [hfree, Ne.symm hne]
    · simp [hs]
  · cases hreply

theorem secure_unlock (hinv : Inv digest w) (s : Scope) :
    Leaves digest v (fun _ => Inv digest) (ask (.unlock s)) w := by
  refine Secure.ask (Op.unlock s) hinv ?_
  intro w hw
  refine ⟨trivial, ?_⟩
  intro choice reply w' hreply
  cases hreply
  split
  next hheld =>
    have hinv' : Inv digest { w with holder := Function.update w.holder s none } :=
      { hw with }
    refine ⟨hinv', ⟨?_, fun _ _ => rfl, fun _ => le_rfl, fun _ _ hb => hb, [], rfl, by simp⟩, hinv'⟩
    intro s' u hne
    by_cases hs : s' = s
    · subst hs
      simp [hheld, Ne.symm hne]
    · simp [hs]
  · exact ⟨hw, .refl, hw⟩

theorem secure_transaction (op : Op Hash)
    {body : Store Hash Worker → Except Failure (Answer op) × Store Hash Worker}
    {Q : Answer op → Store Hash Worker → Prop} [Stable (rules digest) v P]
    [∀ a, Stable (rules digest) v (Q a)]
    (hop : ∀ choice w, respond v choice op w = some (transaction choice body w))
    (hneeds : ∀ w : Store Hash Worker, Needs op w) (hw : P w)
    (hbody : ∀ w, P w → Inv digest w ∧ Inv digest (body w).2 ∧ May v w (body w).2 ∧
      ∀ a, (body w).1 = .ok a → Q a (body w).2) : Leaves digest v Q (ask op) w := by
  refine Secure.ask op hw (fun w hw => ⟨hneeds w, ?_⟩)
  intro choice reply w' hreply
  obtain ⟨hinv, hinv', hmay, hok⟩ := hbody w hw
  have hreply : transaction choice body w = (reply, w') :=
    Option.some.inj ((hop choice w).symm.trans hreply)
  unfold transaction at hreply
  split at hreply
  · rw [hreply] at hinv' hmay hok
    cases reply with
    | error e => exact ⟨hinv', hmay, hinv'⟩
    | ok a => exact ⟨hinv', hmay, hok a rfl⟩
  · cases hreply
    exact ⟨hinv, .refl, hinv⟩

theorem secure_accept (hdigest : digest.Separates) (hh : h = digest.requestHash o payload)
    (hw : Locked digest v o.scope w) :
    Leaves digest v (fun d w => Inv digest w ∧ ((!d.stale && !d.conflict && !d.terminal) = true →
        Mine digest v o h w ∧ (d.replayed = false → Ready digest v o h w))) (ask (.accept
        o h)) w := by
  refine secure_transaction (Op.accept o h) (fun _ _ => rfl) (fun _ => trivial) hw (fun w hw => ?_)
  obtain ⟨hinv', hmay, hgo⟩ := accept_spec hdigest hw.inv hw.held hh
  refine ⟨hw.inv, hinv', hmay, fun d hd => ⟨hinv', fun hdecided => ?_⟩⟩
  obtain ⟨hmine, hfresh⟩ := hgo d hd hdecided
  exact ⟨hmine, fun hnew => ⟨hmine, hfresh hnew⟩⟩

class Steady (digest : Digest Payload Hash) (v : Worker) (o : Operation) (h : Hash)
    (P : Store Hash Worker → Prop) : Prop where
  holding : ∀ w, P w → Holding digest v o h w
  rows : ∀ w rows, P w → Written digest v o h w rows → P { w with rows := rows }

instance steady_holding : Steady digest v o h (Holding digest v o h) :=
  ⟨fun _ hw => hw, fun _ _ hw hrows => ⟨⟨hrows.inv, hw.held⟩, hrows.bound⟩⟩

instance steady_mine : Steady digest v o h (Mine digest v o h) :=
  ⟨fun _ hw => { hw with }, fun _ _ hw hrows => ⟨hrows.inv, hw.held, hw.current, hrows.bound⟩⟩

instance steady_ready : Steady digest v o h (Ready digest v o h) :=
  ⟨fun _ hw => { hw with }, fun w rows hw hrows =>
    ⟨steady_mine.rows w rows hw.toMine hrows, hw.retryable⟩⟩

theorem secure_finish [Stable (rules digest) v P] [hP : Steady digest v o h P]
    (hh : h = digest.requestHash o payload) (hw : P w) (status : Status) (reason : Option Reason) :
    Leaves digest v (fun _ => P) (ask (.finish o status reason)) w := by
  refine secure_transaction (Op.finish o status reason) (fun _ _ => rfl) (fun _ => trivial) hw
    (fun w hw => ?_)
  have hheld := hP.holding w hw
  obtain ⟨rows, hrows, hwritten⟩ := finish_spec (v := v) hheld.inv hh hheld.bound status reason
  rw [hrows]
  exact ⟨hheld.inv, hwritten.inv, hwritten.may, fun _ _ => hP.rows w rows hw hwritten⟩

theorem secure_read [hP : Stable (rules digest) v P] (hdigest : digest.Separates)
    (hinv : ∀ w, P w → Inv digest w) (hw : P w) (o : Operation) (payload : Payload) :
    Leaves digest v (fun found w => P w ∧ ∀ receipt, found = some receipt →
      receipt.requestHash = digest.requestHash o payload →
        Bound o (digest.requestHash o payload) w) (ask (.read o.operationId)) w := by
  have hfound : ∀ found : Option (Receipt Hash),
      Stable (rules digest) v (fun w => P w ∧ ∀ receipt, found = some receipt →
      receipt.requestHash = digest.requestHash o payload →
      Bound o (digest.requestHash o payload) w) :=
    fun found => ⟨fun u hne a b ha hb hmay => ⟨hP.keep u hne a b ha.1 hb hmay,
      fun receipt hfound hhash => hmay.bound _ _ (ha.2 receipt hfound hhash)⟩⟩
  refine secure_transaction (Op.read o.operationId) (fun _ _ => rfl) (fun _ => trivial) hw
    (fun w hw => ?_)
  refine ⟨hinv w hw, hinv w hw, .refl, fun found hfound => ⟨hw, fun receipt hread hhash => ?_⟩⟩
  exact read_bound hdigest (hinv w hw) ((Except.ok.inj hfound).trans hread) hhash

theorem secure_receipt (hdigest : digest.Separates) (hinv : Inv digest w) (o : Operation)
    (payload : Payload) (replayed : Bool) :
    Leaves digest v (fun _ => Inv digest) (receipt o replayed) w := by
  apply Secure.seq (secure_read hdigest (fun _ hw => hw) hinv o payload)
  intro found w hw
  cases found with
  | none => exact Secure.raise hw.1
  | some receipt => exact Secure.ret hw.1

theorem secure_readback {Q : Option (Observation Hash) → Store Hash Worker → Prop}
    [Stable (rules digest) v P] [∀ e, Stable (rules digest) v (Q e)]
    (hinv : ∀ w, P w → Inv digest w)
    (hlog : ∀ w evidence, P w → Q evidence { w with log := .readback o h evidence :: w.log })
    (hw : P w) :
    Leaves digest v Q (ask (.readback o h)) w := by
  refine Secure.ask (Op.readback o h) hw ?_
  intro w hw
  refine ⟨trivial, ?_⟩
  intro choice reply w' hreply
  cases hreply
  refine ⟨(hinv w hw).readback _,
    ⟨fun _ _ _ => Iff.rfl, fun _ _ => rfl, fun _ => le_rfl, fun _ _ hb => hb, _,
      List.singleton_append.symm, by simp⟩, hlog w _ hw⟩

theorem secure_apply (hw : Ready digest v o h w) :
    Leaves digest v (fun _ => Mine digest v o h) (ask (.apply o h)) w := by
  refine Secure.ask (Op.apply o h) hw ?_
  intro w hw
  refine ⟨hw.current, ?_⟩
  intro choice reply w' hreply
  cases hreply
  have hmine' := hw.invoked hw.retryable choice.outcome
  refine ⟨hmine'.inv, ⟨fun _ _ _ => Iff.rfl, fun _ _ => rfl, fun _ => le_rfl, fun _ _ hb => hb, _,
    List.singleton_append.symm, ?_⟩, hmine'⟩
  intro o' h' r hmem
  cases List.mem_singleton.mp hmem
  exact ⟨hw.held, hw.bound⟩

section Programs

variable (hh : h = digest.requestHash o payload)

include hh

theorem secure_record (hw : Mine digest v o h w) (outcome : Outcome) :
    Leaves digest v (fun _ => Mine digest v o h) (record o h outcome) w := by
  cases outcome with
  | rejected reason => exact secure_finish hh hw _ _
  | failed => exact secure_finish hh hw _ _
  | returned =>
    apply Secure.seq (secure_readback (fun _ hw => hw.inv) mine_readback hw)
    intro evidence w hw
    split
    · exact secure_finish hh hw _ _
    · exact secure_finish hh hw _ _

theorem secure_invoke (hdigest : digest.Separates) (hw : Ready digest v o h w) (replayed : Bool) :
    Leaves digest v (fun _ => Inv digest) (invoke o h replayed) w := by
  apply Secure.seq (secure_apply hw)
  intro outcome w hw
  apply Secure.seq (secure_record hh hw outcome)
  intro _ w hw
  exact secure_receipt hdigest hw.inv o payload replayed

theorem secure_retry (hdigest : digest.Separates) (hw : Mine digest v o h w) :
    Leaves digest v (fun _ => Inv digest) (retry o h) w := by
  apply Secure.seq (secure_readback (Q := fun evidence w => Mine digest v o h w ∧
      (observe o h evidence = .notApplied → Ready digest v o h w)) (fun _ hw => hw.inv)
    (fun w evidence hw => ⟨mine_readback w evidence hw, fun hobserved =>
      ⟨mine_readback w evidence hw, .inl ⟨rfl, rfl, hobserved⟩⟩⟩) hw)
  intro evidence w hw
  split
  · apply Secure.seq (secure_finish hh hw.1 _ _)
    intro _ w hw
    exact secure_receipt hdigest hw.inv o payload true
  · apply Secure.seq (secure_finish hh hw.1 _ _)
    intro _ w hw
    exact secure_receipt hdigest hw.inv o payload true
  next hobserved =>
    apply Secure.seq (secure_finish hh (hw.2 hobserved) _ _)
    intro _ w hw
    exact secure_invoke hh hdigest hw true

theorem secure_executeLocked (hdigest : digest.Separates) (hw : Locked digest v o.scope w) :
    Leaves digest v (fun _ => Inv digest) (executeLocked o h) w := by
  apply Secure.seq (secure_accept hdigest hh hw)
  intro d w hw
  obtain ⟨hinv, hgo⟩ := hw
  split
  · exact secure_receipt hdigest hinv o payload true
  next hterminal =>
    split
    · exact secure_receipt hdigest hinv o payload d.replayed
    next hrefused =>
      obtain ⟨hmine, hfresh⟩ := hgo (by simp_all)
      split
      · exact secure_retry hh hdigest hmine
      next hnew => exact secure_invoke hh hdigest (hfresh (by simpa using hnew)) false

theorem secure_reconcileLocked (hdigest : digest.Separates) (hw : Locked digest v o.scope w) :
    Leaves digest v (fun _ => Inv digest) (reconcileLocked o h) w := by
  apply Secure.seq (secure_read hdigest (fun _ hw => hw.inv) hw o payload)
  intro found w ⟨hw, hbound⟩
  cases found with
  | none => exact Secure.ret hw.inv
  | some receipt =>
    dsimp only
    split
    · exact Secure.raise hw.inv
    next hhash =>
      split
      · exact Secure.ret hw.inv
      have hlog : ∀ (w : Store Hash Worker) evidence, Holding digest v o h w →
          Holding digest v o h { w with log := .readback o h evidence :: w.log } :=
        fun w evidence hw => ⟨⟨hw.inv.readback evidence, hw.held⟩, hw.bound⟩
      have hholding : Holding digest v o h w :=
        ⟨hw, hh ▸ hbound receipt rfl (by rw [← hh]; exact not_not.mp hhash)⟩
      apply Secure.seq (secure_readback (fun _ hw => hw.inv) hlog hholding)
      intro evidence w hw
      have hread : ∀ w, Holding digest v o h w →
        Leaves digest v (fun _ => Inv digest) (ask (.read o.operationId)) w :=
        fun w hw =>
          (secure_read hdigest (fun _ hw => hw) hw.inv o payload).mono (fun _ _ h => h.1)
            (fun _ _ h => h)
      split
      all_goals
        apply Secure.seq (secure_finish hh hw _ _)
        intro _ w hw
        exact hread w hw

end Programs

theorem secure_locked {s : Scope} {body : Program Hash (Option (Receipt Hash))}
    (hbody : ∀ w : Store Hash Worker, Locked digest v s w →
      Leaves digest v (fun _ => Inv digest) body w) (hinv : Inv digest w) :
    Leaves digest v (fun _ => Inv digest) (locked s body) w := by
  apply Secure.seq (secure_lock hinv s)
  intro _ w hw
  apply Secure.ensure (hbody w hw)
  · intro _ w hw
    exact secure_unlock hw s
  · intro _ w hw
    exact secure_unlock hw s

theorem rules_suit (hdigest : digest.Separates) :
    (rules digest : Rules (digest.machine : Machine _ Worker _ _ _ _)).Suit := by
  constructor
  · intro v call w hw
    refine Secure.mono (Q := fun _ => Inv digest) (E := fun _ => Inv digest) ?_
      (fun _ _ _ => trivial) (fun _ _ _ => trivial)
    cases call with
    | execute o payload => exact secure_locked (fun w => secure_executeLocked rfl hdigest) hw
    | reconcile o payload => exact secure_locked (fun w => secure_reconcileLocked rfl hdigest) hw
  · intro v w hw
    refine ⟨{ hw with }, ?_, fun _ _ => rfl, fun _ => le_rfl, fun _ _ hb => hb, [], rfl, by nofun⟩
    intro s u hne
    simp only [Digest.machine, leave]
    split
    next hheld => simp [hheld, Ne.symm hne]
    · exact Iff.rfl

structure Fenced (s t : Pool (Store Hash Worker) Worker (@Answer Hash) Failure
    (Option (Receipt Hash))) : Prop where
  /-- The accepted version of a scope never decreases. -/
  rising : ∀ scope, s.world.accepted scope ≤ t.world.accepted scope
  /-- From the call of `apply` until it returns, the operation is the fence of its scope. -/
  current : ∀ v o h next, t.threads v = some (.call (.apply o h) next) →
    t.world.fences.get? o.scope = some o.fence
  /-- No two operations are applied at one scope and version. -/
  single : ∀ o₁ o₂, Applied o₁ t.world → Applied o₂ t.world → o₁.scope = o₂.scope →
    o₁.version = o₂.version →
    o₁.operationId = o₂.operationId
  /-- The request of an operation id never changes. -/
  bound : ∀ id r, s.world.rows.get? id = some r → ∃ r', t.world.rows.get? id = some r' ∧
    r'.requestHash = r.requestHash
  /-- Between two invocations of one operation its own readback has said that it is not applied. -/
  retried : ∀ later o₂ h₂ r₂ between o₁ h₁ r₁ earlier,
    t.world.log = later ++ .invoked o₂ h₂ r₂ :: (between ++ .invoked o₁ h₁ r₁ :: earlier) →
      o₁.operationId = o₂.operationId →
        ∃ evidence, .readback o₂ h₂ evidence ∈ between ∧ observe o₂ h₂ evidence = .notApplied

theorem operations_fenced (digest : Digest Payload Hash) (hdigest : digest.Separates)
    (moves more : List (Move (digest.machine : Machine (Store Hash Worker) Worker _ _ _ _))) :
    Fenced (run digest.machine.next moves (Pool.idle {}))
      (run digest.machine.next more (run digest.machine.next moves (Pool.idle {}))) := by
  have hsuit : (rules digest : Rules (digest.machine : Machine _ Worker _ _ _ _)).Suit :=
    rules_suit hdigest
  have hs := kept_run hsuit (kept_idle (inv_empty digest)) moves
  have ht := kept_run hsuit hs more
  refine ⟨?_, ?_, ht.inv.single, ?_, ?_⟩
  · exact run_relates hsuit hs (r := fun a b => ∀ scope, a.accepted scope ≤ b.accepted scope)
      (fun _ _ => le_rfl) (fun a b c hab hbc scope => (hab scope).trans (hbc scope))
      (fun v a b _ _ hmay => hmay.rising) more
  · intro v o h next hv
    exact ht.needs hv
  · intro id r hr
    have hbound := run_relates hsuit hs (r := fun a b => ∀ o h, Bound o h a → Bound o h b)
      (fun _ _ _ hb => hb) (fun a b c hab hbc o h hb => hbc o h (hab o h hb))
      (fun v a b _ _ hmay => hmay.bound) more
    obtain ⟨rfl, -⟩ := hs.inv.keyed id r hr
    obtain ⟨r', hr', -, hhash⟩ := hbound r.operation r.requestHash ⟨r, hr, rfl, rfl⟩
    exact ⟨r', hr', hhash⟩
  · intro later o₂ h₂ r₂ between o₁ h₁ r₁ earlier hlog hid
    have hspaced := ht.inv.spaced
    rw [hlog] at hspaced
    exact hspaced.suffix.1.split hid

def plainDigest : Digest Unit Operation := ⟨fun o _ => o⟩

theorem separates_plainDigest : plainDigest.Separates := fun _ _ _ _ h => h

def bind (second : Bool) : Operation where
  operationId := if second then "op-2" else "op-1"
  nodeId := "node-1"
  assetKey := "asset-1"
  ownerRef := "owner-1"
  action := "bind"
  generation := 1
  desiredVersion := if second then 2 else 1
  identifiers := by cases second <;> decide
  numbers := by cases second <;> decide

def bindMoves (second : Bool) :
    List (Move (plainDigest.machine : Machine (Store Operation Nat) Nat _ _ _ _)) :=
  .start 0 (.execute (bind second) ()) :: List.replicate 12 (.step 0 {})

theorem later_operation_fenced : plainDigest.Separates ∧
    (run plainDigest.machine.next (bindMoves true) (run plainDigest.machine.next (bindMoves false)
      (Pool.idle {}))).world.accepted (bind true).scope = toLex (1, 2) ∧
    Fenced (run plainDigest.machine.next (bindMoves false) (Pool.idle {}))
      (run plainDigest.machine.next (bindMoves true)
        (run plainDigest.machine.next (bindMoves false) (Pool.idle {}))) :=
  ⟨separates_plainDigest, by decide +kernel,
    operations_fenced plainDigest separates_plainDigest (bindMoves false) (bindMoves true)⟩

end NodeManager.OperationRuns
