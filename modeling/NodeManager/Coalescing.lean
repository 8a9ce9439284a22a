import NodeManager.AuthNameSteps
import NodeManager.Submissions

namespace NodeManager.Coalescing

open Accounts AuthNames AuthNameSteps Credentials Dictionary Identities Outcomes Programs Singbox
  Submissions Text WriteQueue

structure Store where
  files : Files
  history : Dict String Nat
  deriving DecidableEq, Repr

def Store.version (store : Store) (userId : String) : Nat :=
  userVersion store.history store.files.versions userId

def publish (socksTag : String) (store : Store) : Store where
  files := published socksTag store.files
  history := raiseVersions store.history (archivedVersions store.files)

variable {Value Error : Type}

/-- A mutation changes the files and returns a value, or raises an error and may have changed
them. -/
abbrev Mutation (Value Error : Type) := Store → Except Error Value × Files

def invoke (index : Nat) : List (Item (Mutation Value Error)) → Store →
    Except (Nat × Error) (List Value × Store)
  | [], store => .ok ([], store)
  | item :: items, store =>
    match item.callback store with
    | (.error error, _) => .error (index, error)
    | (.ok value, updated) =>
      match invoke (index + 1) items { store with files := updated } with
      | .error failure => .error failure
      | .ok (values, final) => .ok (value :: values, final)

/-- The mutations one at a time, each on its own copy that is dropped if it raises. -/
def oneAtATime : List (Item (Mutation Value Error)) → Store →
    List (TaskId × Ending Value Error) × Store
  | [], store => ([], store)
  | item :: items, store =>
    match item.callback store with
    | (.error error, _) =>
      ((item.taskId, mutationRejected error) :: (oneAtATime items store).1,
        (oneAtATime items store).2)
    | (.ok value, updated) =>
      let rest := oneAtATime items { store with files := updated }
      ((item.taskId, succeeded value) :: rest.1, rest.2)

structure World (Value Error : Type) where
  store : Store
  staged : Store
  pending : List (Item (Mutation Value Error))
  futures : List (TaskId × Ending Value Error)

def respond (socksTag : String) (batchSize : Nat) : (op : Op (Mutation Value Error) Value Error) →
    World Value Error → Except (Failure Error) (Answer op) × World Value Error
  | .checkMode, w => (.ok true, w)
  | .begin _, w => (.ok 0, w)
  | .mutate _ items, w =>
    match invoke 0 items w.store with
    | .error (index, error) => (.error (.batchRejected index error), w)
    | .ok (values, updated) =>
      (.ok ⟨values, decide (updated.files ≠ w.store.files)⟩, { w with staged := updated })
  | .openJournal _, w | .writeRecords _, w => (.ok (), w)
  | .settle _, w => (.ok (), { w with store := publish socksTag w.staged })
  | .finish item ending, w => (.ok (), { w with futures := w.futures ++ [(item.taskId, ending)] })
  | .paused, w => (.ok false, w)
  | .pause, w | .cleanupReceipt _, w | .stop, w | .recoverWal, w | .resume, w => (.ok (), w)
  | .batches _, w | .listReceipts, w => (.ok [], w)
  | .awake, w => (.ok (!w.pending.isEmpty), w)
  | .collect, w =>
    (.ok (some (collect batchSize w.pending).1),
      { w with pending := (collect batchSize w.pending).2 })
  | .drain, w => (.ok w.pending, { w with pending := [] })
  | .reconcileRows, w => (.ok (some []), w)

variable {socksTag : String} {batchSize : Nat} {w : World Value Error}
  {items : List (Item (Mutation Value Error))} {index : Nat} {values : List Value}
  {updated store s t : Store} {error : Error}

theorem oneAtATime_append (first second : List (Item (Mutation Value Error))) (store : Store) :
    oneAtATime (first ++ second) store =
      ((oneAtATime first store).1 ++ (oneAtATime second (oneAtATime first store).2).1,
        (oneAtATime second (oneAtATime first store).2).2) := by
  induction first generalizing store with
  | nil => rfl
  | cons item first ih =>
    rw [List.cons_append, oneAtATime, oneAtATime]
    split <;> simp only [ih, List.cons_append]

theorem history_oneAtATime (items : List (Item (Mutation Value Error))) (store : Store) :
    (oneAtATime items store).2.history = store.history := by
  induction items generalizing store with
  | nil => rfl
  | cons item items ih =>
    rw [oneAtATime]
    split
    · exact ih store
    · exact ih _

theorem oneAtATime_of_invoke (h : invoke index items store = .ok (values, updated)) :
    oneAtATime items store = ((items.zip values).map
      (fun entry => (entry.1.taskId, succeeded entry.2)), updated) := by
  induction items generalizing index store values with
  | nil =>
    cases h
    rfl
  | cons item items ih =>
    rw [invoke] at h
    rw [oneAtATime]
    split at h
    · cases h
    next value changed hcall =>
      split at h
      · cases h
      next rest final hrest =>
        cases h
        simp only [ih hrest, List.zip_cons_cons, List.map_cons]

theorem invoke_error {start : Nat} (h : invoke start items store = .error (index, error)) :
    ∃ before item after, items = before ++ item :: after ∧ index = start + before.length ∧
      (item.callback (oneAtATime before store).2).1 = .error error := by
  induction items generalizing start store with
  | nil => cases h
  | cons item items ih =>
    rw [invoke] at h
    split at h
    next hcall =>
      cases h
      exact ⟨[], item, items, rfl, rfl, congrArg Prod.fst hcall⟩
    next value updated hcall =>
      split at h
      next hrest =>
        cases h
        obtain ⟨before, bad, after, rfl, rfl, hbad⟩ := ih hrest
        refine ⟨item :: before, bad, after, rfl, ?_, ?_⟩
        · rw [List.length_cons]
          omega
        · simpa only [oneAtATime, hcall] using hbad
      · cases h

/-- Stores that differ only in what publications do: in `require_auth`, and in where the version of
a user is that is gone. The order of the versions does not count, as for Python's dictionaries. -/
structure Same (socksTag : String) (s t : Store) : Prop where
  node : s.files.node = t.files.node
  listeners : s.files.listeners.map (secure socksTag) = t.files.listeners.map (secure socksTag)
  registry : ∀ userId ∈ discoverUserIds s.files.node.inbounds s.files.node.users,
    s.files.versions.get? userId = t.files.versions.get? userId
  version : ∀ userId, s.version userId = t.version userId

theorem Same.refl (s : Store) : Same socksTag s s := ⟨rfl, rfl, fun _ _ => rfl, fun _ => rfl⟩

theorem Same.trans {u : Store} (h : Same socksTag s t) (h' : Same socksTag t u) :
    Same socksTag s u where
  node := h.node.trans h'.node
  listeners := h.listeners.trans h'.listeners
  registry userId hactive := (h.registry userId hactive).trans
    (h'.registry userId (h.node ▸ hactive))
  version userId := (h.version userId).trans (h'.version userId)

theorem same_publish (socksTag : String) (store : Store) :
    Same socksTag (publish socksTag store) store where
  node := rfl
  listeners := congrArg Files.listeners (published_published socksTag store.files)
  registry userId hactive := by
    simp only [publish, published] at hactive ⊢
    rw [Dict.get?_filterKeys, if_pos (decide_eq_true hactive)]
  version userId := by
    rw [Store.version, Store.version, userVersion, userVersion]
    simp only [publish, published, archivedVersions, getD_raiseVersions, Dict.get?_filterKeys]
    by_cases hactive : userId ∈ discoverUserIds store.files.node.inbounds store.files.node.users
    · simp [hactive]
    · simp [hactive, max_comm]

/-- The mutation does not see what publications do. -/
def Blind (socksTag : String) (mutation : Mutation Value Error) : Prop :=
  ∀ s t, Same socksTag s t → (mutation s).1 = (mutation t).1 ∧
    Same socksTag { s with files := (mutation s).2 } { t with files := (mutation t).2 }

theorem oneAtATime_congr (hblind : ∀ item ∈ items, Blind socksTag item.callback)
    (hst : Same socksTag s t) :
    (oneAtATime items s).1 = (oneAtATime items t).1 ∧
      Same socksTag (oneAtATime items s).2 (oneAtATime items t).2 := by
  induction items generalizing s t with
  | nil => exact ⟨rfl, hst⟩
  | cons item items ih =>
    obtain ⟨hresult, hfiles⟩ := hblind item List.mem_cons_self s t hst
    have hrest : ∀ i ∈ items, Blind socksTag i.callback :=
      fun i hi => hblind i (List.mem_cons_of_mem _ hi)
    rcases hs : item.callback s with ⟨rs, us⟩
    rcases ht : item.callback t with ⟨rt, ut⟩
    rw [hs, ht] at hresult hfiles
    subst hresult
    cases rs with
    | error error =>
      obtain ⟨h₁, h₂⟩ := ih hrest hst
      simp only [oneAtATime, hs, ht, h₁, h₂, and_self]
    | ok value =>
      obtain ⟨h₁, h₂⟩ := ih hrest hfiles
      simp only [oneAtATime, hs, ht, h₁, h₂, and_self]

def exec {α : Type} (socksTag : String) (batchSize : Nat)
    (p : Writer (Mutation Value Error) Value Error α) (w : World Value Error) :
    Except (Failure Error) α × World Value Error :=
  p.eval (respond socksTag batchSize) w

theorem exec_finish (item : Item (Mutation Value Error)) (ending : Ending Value Error)
    (w : World Value Error) :
    exec socksTag batchSize (WriteQueue.finish item ending) w =
      (.ok (), { w with futures := w.futures ++ [(item.taskId, ending)] }) := rfl

theorem exec_finishAll (ending : Ending Value Error) (items : List (Item (Mutation Value Error)))
    (w : World Value Error) :
    exec socksTag batchSize (finishAll ending items) w =
      (.ok (), { w with
        futures := w.futures ++ items.map (fun item => (item.taskId, ending)) }) := by
  induction items generalizing w with
  | nil => simp only [List.map_nil, List.append_nil]; rfl
  | cons item items ih =>
    refine (Prog.eval_bind_ok (exec_finish item ending w)).trans ((ih _).trans ?_)
    simp only [List.map_cons, List.append_assoc, List.singleton_append]

theorem exec_finishEach (entries : List (Item (Mutation Value Error) × Value))
    (w : World Value Error) :
    exec socksTag batchSize (finishEach entries) w =
      (.ok (), { w with
        futures := w.futures ++
          entries.map (fun entry => (entry.1.taskId, succeeded entry.2)) }) := by
  induction entries generalizing w with
  | nil => simp only [List.map_nil, List.append_nil]; rfl
  | cons entry entries ih =>
    refine (Prog.eval_bind_ok (exec_finish entry.1 (succeeded entry.2) w)).trans ((ih _).trans ?_)
    simp only [List.map_cons, List.append_assoc, List.singleton_append]

theorem exec_cleanup (items : List (Item (Mutation Value Error))) (w : World Value Error) :
    exec socksTag batchSize (cleanup items) w = (.ok (), w) := rfl

theorem exec_apply_error (h : invoke 0 items w.store = .error (index, error)) :
    exec socksTag batchSize (apply items) w = (.error (.batchRejected index error), w) := by
  have hmutate : exec socksTag batchSize (ask (.mutate 0 items)) w =
      (.error (.batchRejected index error), w) := by
    refine (Prog.eval_ask _ w).trans ?_
    simp only [respond, h]
  exact (show exec socksTag batchSize (apply items) w =
    (ask (.mutate 0 items) >>= _).eval (respond socksTag batchSize) w
    from rfl).trans (Prog.eval_seq_error hmutate)

theorem exec_apply_ok (h : invoke 0 items w.store = .ok (values, updated)) :
    exec socksTag batchSize (apply items) w =
      (.ok values, { w with
        staged := updated
        store := if updated.files = w.store.files then w.store
          else publish socksTag updated }) := by
  have hmutate : exec socksTag batchSize (ask (.mutate 0 items)) w =
      (.ok ⟨values, decide (updated.files ≠ w.store.files)⟩, { w with staged := updated }) := by
    refine (Prog.eval_ask _ w).trans ?_
    simp only [respond, h]
  refine (Prog.eval_seq_ok hmutate).trans ?_
  by_cases hsame : updated.files = w.store.files
  · simp only [hsame, ne_eq, not_true_eq_false, decide_false, Bool.false_eq_true, ↓reduceIte]
    rfl
  · simp only [hsame, ne_eq, not_false_eq_true, decide_true, ↓reduceIte]
    rfl

structure Processed (socksTag : String) (items : List (Item (Mutation Value Error)))
    (w v : World Value Error) : Prop where
  futures : v.futures = w.futures ++ (oneAtATime items w.store).1
  same : Same socksTag v.store (oneAtATime items w.store).2
  normal : published socksTag w.store.files = w.store.files →
    published socksTag v.store.files = v.store.files

theorem Processed.nil (w : World Value Error) : Processed socksTag [] w w :=
  ⟨(List.append_nil _).symm, .refl _, id⟩

theorem Processed.append {first second : List (Item (Mutation Value Error))}
    {w v u : World Value Error} (hblind : ∀ item ∈ second, Blind socksTag item.callback)
    (hf : Processed socksTag first w v) (hs : Processed socksTag second v u) :
    Processed socksTag (first ++ second) w u := by
  obtain ⟨hresults, hsame⟩ := oneAtATime_congr hblind hf.same
  refine ⟨?_, ?_, fun h => hs.normal (hf.normal h)⟩
  · rw [hs.futures, hf.futures, hresults, List.append_assoc, oneAtATime_append]
  · rw [oneAtATime_append]
    exact hs.same.trans hsame

theorem processed_rejected {item : Item (Mutation Value Error)}
    (h : (item.callback w.store).1 = .error error) :
    Processed socksTag [item] w { w with
      futures := w.futures ++ [(item.taskId, mutationRejected error)] } := by
  rcases hcall : item.callback w.store with ⟨result, updated⟩
  rw [hcall] at h
  subst h
  refine ⟨?_, ?_, id⟩
  · simp only [oneAtATime, hcall]
  · simp only [oneAtATime, hcall]
    exact .refl _

def Does (socksTag : String) (batchSize : Nat) (p : Writer (Mutation Value Error) Value Error Unit)
    (items : List (Item (Mutation Value Error))) (w : World Value Error) : Prop :=
  ∃ v, exec socksTag batchSize p w = (.ok (), v) ∧ v.pending = w.pending ∧
    Processed socksTag items w v

theorem exec_processRejected
    {process : List (Item (Mutation Value Error)) → Writer (Mutation Value Error) Value Error Unit}
    {before after : List (Item (Mutation Value Error))} {item : Item (Mutation Value Error)}
    (hblind : ∀ other ∈ before ++ item :: after, Blind socksTag other.callback)
    (hbefore : ∀ w, Does socksTag batchSize (process before) before w)
    (hafter : ∀ w, Does socksTag batchSize (process after) after w)
    (herror : (item.callback (oneAtATime before w.store).2).1 = .error error) :
    Does socksTag batchSize (processRejected process (before ++ item :: after) before.length error)
      (before ++ item :: after) w := by
  -- the prefix is replayed, unless it is empty
  have hprefix : Does socksTag batchSize (Prog.when (0 < before.length)
      (process ((before ++ item :: after).take before.length))) before w := by
    rw [Does, exec, Prog.eval_when, List.take_left]
    split
    · exact hbefore w
    next hempty =>
      obtain rfl : before = [] := List.length_eq_zero_iff.mp (by omega)
      exact ⟨w, rfl, rfl, Processed.nil w⟩
  obtain ⟨v, hv, hqv, hpv⟩ := hprefix
  have hcall : (item.callback v.store).1 = .error error :=
    (hblind item (by simp) _ _ hpv.same).1.trans herror
  -- the rejected request is told
  have htold : exec socksTag batchSize
      (finishAll (mutationRejected error) (before ++ item :: after)[before.length]?.toList) v =
      (.ok (), { v with futures := v.futures ++ [(item.taskId, mutationRejected error)] }) := by
    rw [exec_finishAll, List.getElem?_append_right le_rfl, Nat.sub_self]
    rfl
  -- the suffix follows
  have hsuffix : Does socksTag batchSize
    (Prog.when (before.length + 1 < (before ++ item :: after).length) (do
      if ← ask .paused then
        finishAll (cancelled "PRIOR_PUBLICATION_UNCERTAIN")
          ((before ++ item :: after).drop (before.length + 1))
      else process ((before ++ item :: after).drop (before.length + 1)))) after
      { v with futures := v.futures ++ [(item.taskId, mutationRejected error)] } := by
    have hdrop : (before ++ item :: after).drop (before.length + 1) = after := by
      rw [List.append_cons]
      exact List.drop_left' (by simp)
    rw [Does, exec, Prog.eval_when, hdrop]
    split
    · exact hafter _
    next hlast =>
      obtain rfl : after = [] := by
        apply List.length_eq_zero_iff.mp
        simp only [List.length_append, List.length_cons] at hlast
        omega
      exact ⟨_, rfl, rfl, Processed.nil _⟩
  obtain ⟨u, hu, hqu, hpu⟩ := hsuffix
  refine ⟨u, (Prog.eval_seq_ok hv).trans ((Prog.eval_seq_ok htold).trans hu), hqu.trans hqv, ?_⟩
  refine hpv.append (fun i hi => hblind i (List.mem_append_right _ hi)) ?_
  exact Processed.append (fun i hi => hblind i (by simp [hi])) (processed_rejected hcall) hpu

theorem exec_processWithin {depth : Nat} (hdepth : items.length ≤ depth)
    (hblind : ∀ item ∈ items, Blind socksTag item.callback) (w : World Value Error) :
    Does socksTag batchSize (processWithin depth items) items w := by
  induction depth generalizing items w with
  | zero =>
    obtain rfl := List.length_eq_zero_iff.mp (Nat.le_zero.mp hdepth)
    exact ⟨w, rfl, rfl, Processed.nil w⟩
  | succ depth ih =>
    rw [Does, processWithin, exec, Prog.eval_ensure (exec_cleanup items)]
    have hattempt : exec socksTag batchSize (apply items).attempt w =
        (.ok (exec socksTag batchSize (apply items) w).1,
          (exec socksTag batchSize (apply items) w).2) :=
      Prog.eval_attempt _ _
    cases hinvoke : invoke 0 items w.store with
    | ok result =>
      obtain ⟨values, updated⟩ := result
      rw [exec_apply_ok hinvoke] at hattempt
      refine ⟨_, (Prog.eval_seq_ok hattempt).trans (exec_finishEach _ _), rfl, ?_⟩
      have hone := oneAtATime_of_invoke hinvoke
      refine ⟨by rw [hone], ?_, ?_⟩
      · rw [hone]
        split
        next hsame =>
          have hhistory := history_oneAtATime items w.store
          rw [hone] at hhistory
          obtain rfl : updated = w.store := by
            cases updated
            exact congrArg₂ Store.mk hsame hhistory
          exact .refl _
        · exact same_publish socksTag updated
      · intro hnormal
        split
        · exact hnormal
        · exact published_published socksTag updated.files
    | error failure =>
      obtain ⟨index, error⟩ := failure
      rw [exec_apply_error hinvoke] at hattempt
      obtain ⟨before, item, after, rfl, hindex, herror⟩ := invoke_error hinvoke
      rw [Nat.zero_add] at hindex
      subst hindex
      rw [List.length_append, List.length_cons] at hdepth
      obtain ⟨v, hv, hqv, hpv⟩ := exec_processRejected hblind
        (fun w => ih (by omega) (fun i hi => hblind i (List.mem_append_left _ hi)) w)
        (fun w => ih (by omega) (fun i hi => hblind i (by simp [hi])) w) herror
      exact ⟨v, (Prog.eval_seq_ok hattempt).trans hv, hqv, hpv⟩

theorem exec_rounds {n : Nat} (w : World Value Error) (hn : w.pending.length ≤ n)
    (hblind : ∀ item ∈ w.pending, Blind socksTag item.callback) :
    ∃ v, exec socksTag batchSize (rounds n) w = (.ok (), v) ∧ v.pending = [] ∧
    Processed socksTag w.pending w v := by
  induction n generalizing w with
  | zero =>
    have hempty : w.pending = [] := List.length_eq_zero_iff.mp (Nat.le_zero.mp hn)
    refine ⟨w, rfl, hempty, ?_⟩
    rw [hempty]
    exact Processed.nil _
  | succ n ih =>
    have hawake : exec socksTag batchSize (ask .awake) w = (.ok (!w.pending.isEmpty), w) := rfl
    rw [exec, rounds, Prog.eval_seq_ok hawake]
    cases hpending : w.pending with
    | nil =>
      obtain ⟨v, hv, hqv, hpv⟩ := ih w (by rw [hpending]; exact Nat.zero_le n) hblind
      exact ⟨v, hv, hqv, hpending ▸ hpv⟩
    | cons first rest =>
      have hsplit := collect_append batchSize w.pending
      have hne : (collect batchSize w.pending).1 ≠ [] := by
        rw [hpending]
        exact collect_ne_nil batchSize first rest
      have hlength := congrArg List.length hsplit
      rw [List.length_append] at hlength
      have hpos := List.length_pos_iff.mpr hne
      have hmem : ∀ item, item ∈ (collect batchSize w.pending).1 ++
          (collect batchSize w.pending).2 →
          Blind socksTag item.callback := by
        rw [hsplit]
        exact hblind
      have hprocess : Does socksTag batchSize (process (collect batchSize w.pending).1)
          (collect batchSize w.pending).1 { w with pending := (collect batchSize w.pending).2 } :=
        exec_processWithin le_rfl (fun item hitem => hmem item (List.mem_append_left _ hitem)) _
      obtain ⟨v, hv, hqv, hpv⟩ := hprocess
      obtain ⟨u, hu, hqu, hpu⟩ := ih v (by rw [hqv]; dsimp only; omega)
        (by rw [hqv]; exact fun item hitem => hmem item (List.mem_append_right _ hitem))
      rw [hqv] at hpu
      refine ⟨u, (Prog.eval_seq_ok hv).trans hu, hqu, ?_⟩
      rw [← hpending, ← hsplit]
      exact Processed.append (fun item hitem => hmem item (List.mem_append_right _ hitem))
        { hpv with } hpu

structure Equal (a b : Files) : Prop where
  node : a.node = b.node
  listeners : a.listeners = b.listeners
  versions : ∀ userId, a.versions.get? userId = b.versions.get? userId

theorem Same.equal (h : Same socksTag s t) (hnormal : published socksTag s.files = s.files) :
    Equal s.files (published socksTag t.files) where
  node := h.node
  listeners := (congrArg Files.listeners hnormal).symm.trans h.listeners
  versions userId := by
    rw [← hnormal, published, published, Dict.get?_filterKeys, Dict.get?_filterKeys, ← h.node]
    split
    next hactive => exact h.registry userId (of_decide_eq_true hactive)
    · rfl

section Submitters

/-- What a task or a mutation does as the callback of an item. What it changed before it raised is
dropped with the copy. -/
def submitted (taskId : TaskId) (work : Work) : Mutation (List Record) String := fun store =>
  match runItem store.history ⟨store.files, []⟩ (taskId, work) with
  | .error error => (.error error, store.files)
  | .ok w => (.ok w.records, w.files)

def Adds (userIds : List String) (callback : Node → Except String Node) : Prop :=
  ∀ node node', callback node = .ok node' → ∀ userId ∈ discoverUserIds node'.inbounds node'.users,
    userId ∈ userIds ∨ userId ∈ discoverUserIds node.inbounds node.users

def Raises : Work → Prop
  | .task commands => ∀ command ∈ commands, Adds [command.userId] command.callback
  | .mutation userId callback => Adds userId.toList callback

theorem Same.moved {node : Node} (h : Same socksTag s t)
    (hadds : ∀ userId ∈ discoverUserIds node.inbounds node.users,
      userId ∈ discoverUserIds s.files.node.inbounds s.files.node.users) :
    Same socksTag { s with files := { s.files with node := node } } { t with
      files := { t.files with node := node } } :=
  ⟨rfl, h.listeners, fun userId hactive => h.registry userId (hadds userId hactive), h.version⟩

theorem Same.raised {node : Node} {userId : String} (h : Same socksTag s t)
    (hadds : ∀ other ∈ discoverUserIds node.inbounds node.users,
      other ∈ [userId] ∨ other ∈ discoverUserIds s.files.node.inbounds s.files.node.users) :
    Same socksTag
      ⟨{ s.files with
        node := node, versions := s.files.versions.set userId (t.version userId + 1) }, s.history⟩
      ⟨{ t.files with
        node := node, versions := t.files.versions.set userId (t.version userId + 1) },
        t.history⟩ where
  node := rfl
  listeners := h.listeners
  registry other hactive := by
    dsimp only at hactive ⊢
    rw [Dict.get?_set, Dict.get?_set]
    split
    · rfl
    next hne => exact h.registry other ((hadds other hactive).resolve_left (by simpa using hne))
  version other := by
    have hs : (s.history.get? userId).getD 0 ≤ t.version userId :=
      (le_max_right _ _).trans_eq (h.version userId)
    have ht : (t.history.get? userId).getD 0 ≤ t.version userId := le_max_right _ _
    change userVersion s.history (s.files.versions.set userId _) other =
      userVersion t.history (t.files.versions.set userId _) other
    rw [userVersion_set, userVersion_set]
    split
    next heq =>
      subst heq
      omega
    · exact h.version other

def Agree (socksTag : String) (history history' : Dict String Nat) : Except String Workspace →
    Except String Workspace → Prop
  | .ok v, .ok w => v.records = w.records ∧ Same socksTag ⟨v.files, history⟩ ⟨w.files, history'⟩
  | .error error, .error error' => error = error'
  | _, _ => False

variable {history history' : Dict String Nat} {v₁ v₂ : Workspace} {taskId : TaskId}

theorem agree_runCommand {command : Command} (hrecords : v₁.records = v₂.records)
    (h : Same socksTag ⟨v₁.files, history⟩ ⟨v₂.files, history'⟩)
    (hadds : Adds [command.userId] command.callback) :
    Agree socksTag history history' (runCommand history taskId v₁ command)
    (runCommand history' taskId v₂ command) := by
  have hversion := h.version command.userId
  have hnode := h.node
  simp only [Store.version] at hversion
  dsimp only at hnode
  rw [runCommand, runCommand, hversion, hnode, hrecords]
  by_cases hexpected : ∀ expected ∈ command.expectedUserVersion,
      expected = userVersion history' v₂.files.versions command.userId
  · simp only [require, if_pos hexpected, ok_bind]
    cases hcall : command.callback v₂.files.node with
    | error error => exact rfl
    | ok node => exact ⟨rfl, h.raised (fun other hother => hnode ▸ hadds _ _ hcall other hother)⟩
  · simp only [require, if_neg hexpected]
    exact rfl

theorem agree_commands {commands : List Command}
    (hadds : ∀ command ∈ commands, Adds [command.userId] command.callback)
    (hrecords : v₁.records = v₂.records)
    (h : Same socksTag ⟨v₁.files, history⟩ ⟨v₂.files, history'⟩) :
    Agree socksTag history history' (commands.foldlM (runCommand history taskId) v₁)
      (commands.foldlM (runCommand history' taskId) v₂) := by
  induction commands generalizing v₁ v₂ with
  | nil => exact ⟨hrecords, h⟩
  | cons command commands ih =>
    have hstep : Agree socksTag history history' (runCommand history taskId v₁ command)
        (runCommand history' taskId v₂ command) :=
        agree_runCommand hrecords h (hadds command List.mem_cons_self)
    rw [List.foldlM_cons, List.foldlM_cons]
    cases h₁ : runCommand history taskId v₁ command <;>
      cases h₂ : runCommand history' taskId v₂ command <;>
      rw [h₁, h₂] at hstep
    · exact hstep
    · exact hstep.elim
    · exact hstep.elim
    · exact ih (fun other hother => hadds other (List.mem_cons_of_mem _ hother)) hstep.1 hstep.2

theorem agree_runMutation {userId : Option String} {callback : Node → Except String Node}
    (hrecords : v₁.records = v₂.records)
    (h : Same socksTag ⟨v₁.files, history⟩ ⟨v₂.files, history'⟩)
    (hadds : Adds userId.toList callback) :
    Agree socksTag history history' (runMutation history taskId userId callback v₁)
      (runMutation history' taskId userId callback v₂) := by
  have hnode := h.node
  dsimp only at hnode
  rw [runMutation, runMutation, hnode, hrecords]
  cases hcall : callback v₂.files.node with
  | error error => exact rfl
  | ok node =>
    have hadds := hadds _ _ hcall
    cases userId with
    | none =>
      exact ⟨rfl, h.moved (fun other hother =>
        hnode ▸ (hadds other hother).resolve_left List.not_mem_nil)⟩
    | some userId =>
      have hversion := h.version userId
      simp only [Store.version] at hversion
      simp only [ok_bind, hversion]
      exact ⟨rfl, h.raised (fun other hother => hnode ▸ hadds other hother)⟩

theorem blind_submitted {work : Work} (hraises : Raises work) :
    Blind socksTag (submitted taskId work) := by
  intro s t hst
  have hagree : Agree socksTag s.history t.history (runItem s.history ⟨s.files, []⟩ (taskId, work))
      (runItem t.history ⟨t.files, []⟩ (taskId, work)) := by
    cases work with
    | task commands => exact agree_commands hraises rfl hst
    | mutation userId callback => exact agree_runMutation rfl hst hraises
  unfold submitted
  cases h₁ : runItem s.history ⟨s.files, []⟩ (taskId, work) <;>
    cases h₂ : runItem t.history ⟨t.files, []⟩ (taskId, work) <;> rw [h₁, h₂] at hagree
  · exact ⟨congrArg Except.error hagree, hst⟩
  · exact hagree.elim
  · exact hagree.elim
  · exact ⟨congrArg Except.ok hagree.1, hagree.2⟩

theorem mem_discoverUserIds {inbounds : List Inbound} {users : Users} {userId : String} :
    userId ∈ discoverUserIds inbounds users ↔ userId ∈ users.keys ∨
    (∃ tag user, Entry inbounds tag user ∧
      (user.name = some (authName userId) ∨ user.username = some (authName userId))) ∧
      userId ≠ "" := by
  simp only [discoverUserIds, List.mem_dedup, List.mem_append, List.mem_filter, List.mem_flatMap,
    List.mem_filterMap, Option.mem_toList, extractUserId_eq_some, decide_eq_true_eq]
  refine or_congr Iff.rfl (and_congr_left fun _ => ⟨?_, ?_⟩)
  · rintro ⟨inbound, hinbound, user, huser, name, hname, rfl⟩
    exact ⟨inbound.tag, user, ⟨inbound, hinbound, rfl, huser⟩, hname⟩
  · rintro ⟨_, user, ⟨inbound, hinbound, -, huser⟩, hname⟩
    exact ⟨inbound, hinbound, user, huser, _, hname, rfl⟩

theorem adds_createUser {h : Host} {request : CreateUser}
    (hname : ∀ userId, request.effectiveSocksUsername = authName userId → userId = request.userId) :
    Adds [request.userId] (createUser h request) := by
  intro node node' hok userId hmem
  rw [List.mem_singleton]
  obtain ⟨-, -, inbounds, hinstall, -, hbind⟩ := createUser_ok hok
  obtain ⟨hinbounds, hkeys, -⟩ := bindCreated_frame (Dict.mem_keys_set.mpr (.inl rfl)) hbind
  rw [mem_discoverUserIds, hkeys, hinbounds, Dict.mem_keys_set] at hmem
  rw [mem_discoverUserIds]
  obtain (rfl | hkey) | ⟨⟨tag, user, hentry, hlogin⟩, hne⟩ := hmem
  · exact .inl rfl
  · exact .inr (.inl hkey)
  obtain hentry | ⟨p, -, -, rfl⟩ := (entry_installUser hinstall).mp hentry
  · exact .inr (.inr ⟨⟨tag, user, hentry, hlogin⟩, hne⟩)
  · left
    obtain hlogin | hlogin := hlogin
    · exact authName_injective (login_entry.1 (name_eq_some.mp hlogin))
    · exact hname userId (login_entry.2 (username_eq_some.mp hlogin)).2.symm

theorem adds_deleteUser (userId : String) : Adds [] (fun node => .ok (deleteUser userId node)) := by
  rintro node _ ⟨⟩ other hmem
  rw [mem_discoverUserIds] at hmem
  rw [mem_discoverUserIds]
  obtain hkey | ⟨⟨tag, user, hentry, hlogin⟩, hne⟩ := hmem
  · exact .inr (.inl (Dict.mem_keys_erase.mp hkey).2)
  · exact .inr (.inr ⟨⟨tag, user, (entry_withoutUsers.mp hentry).1, hlogin⟩, hne⟩)

end Submitters

def item (taskId : TaskId) (isolated : Bool) (callback : Mutation Value Error) :
    Item (Mutation Value Error) :=
  ⟨taskId, callback, 1, 1, isolated, "", []⟩

def aliceStore : Store where
  files :=
    { node := { inbounds := [{ tag := "socks" }], users := Dict.empty.set "alice" {} }
      listeners := [⟨"socks", "socks", some true⟩]
      versions := Dict.empty.set "alice" 1 }
  history := Dict.empty

def delete (expected : Nat) : Work :=
  .task [⟨"alice", some expected, fun node => .ok (deleteUser "alice" node)⟩]

def aliceAgain : CreateUser :=
  { userId := "alice", protocols := [.socks], generatedPassword := "secret" }

def create (expected : Nat) : Work :=
  .task [⟨"alice", some expected, createUser default aliceAgain⟩]

theorem raises_delete (expected : Nat) : Raises (delete expected) := by
  intro command hcommand
  rw [List.mem_singleton.mp hcommand]
  exact fun node node' hok userId hmem =>
    .inr ((adds_deleteUser "alice" node node' hok userId hmem).resolve_left List.not_mem_nil)

theorem raises_create (expected : Nat) : Raises (create expected) := by
  intro command hcommand
  rw [List.mem_singleton.mp hcommand]
  refine @adds_createUser default aliceAgain (fun userId hname => ?_)
  exact absurd (startsWith_iff.mpr ⟨userId, hname⟩) (by decide)

def deleteAlice : Mutation Nat Unit := fun store =>
  (.ok 0, { store.files with node := deleteUser "alice" store.files.node })

def countVersions : Mutation Nat Unit :=
  fun store => (.ok store.files.versions.entries.length, store.files)

end NodeManager.Coalescing
