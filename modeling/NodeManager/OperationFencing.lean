import NodeManager.OperationStore

namespace NodeManager.OperationFencing

open Dictionary OperationStore

variable {Payload Hash Worker : Type}

def Current (o : Operation) (w : Store Hash Worker) : Prop := w.fences.get? o.scope = some o.fence

def Bound (o : Operation) (h : Hash) (w : Store Hash Worker) : Prop :=
  ∃ r, w.rows.get? o.operationId = some r ∧ r.operation = o ∧ r.requestHash = h

/-- The operation was the fence of its scope once: no other one was at its version. -/
def Passed (o : Operation) (w : Store Hash Worker) : Prop :=
  o.version ≤ w.accepted o.scope ∧
    (o.version = w.accepted o.scope → ∃ f, w.fences.get? o.scope = some f ∧
      f.operationId = o.operationId)

section Tables

variable {o : Operation} {h : Hash} {w a : Store Hash Worker} {o' : Operation}

theorem Passed.of_current (hcurrent : Current o w) : Passed o w := by
  have haccepted : w.accepted o.scope = o.version := by
    rw [Store.accepted, hcurrent]
    rfl
  refine ⟨haccepted.symm.le, ?_⟩
  intro _
  exact ⟨o.fence, hcurrent, rfl⟩

theorem Bound.unique {h' : Hash} (hb : Bound o h w) (hb' : Bound o' h' w)
    (hid : o'.operationId = o.operationId) :
    o' = o ∧ h' = h := by
  obtain ⟨r, hr, ho, hh⟩ := hb
  obtain ⟨r', hr', ho', hh'⟩ := hb'
  rw [hid, hr] at hr'
  obtain rfl := Option.some.inj hr'
  exact ⟨ho'.symm.trans ho, hh'.symm.trans hh⟩

theorem not_held {s : Scope} {u v : Worker} (hne : u ≠ v) (ha : a.holder s = some v) :
    a.holder s ≠ some u := by
  rw [ha]
  exact fun h => hne (Option.some.inj h).symm

theorem accepted_set (s s' : Scope) (f : Fence) :
    ({ w with fences := w.fences.set s f } : Store Hash Worker).accepted s' =
      if s' = s then f.version else w.accepted s' := by
  simp only [Store.accepted, Dict.get?_set]
  split <;> rfl

theorem Passed.set_fence (hpassed : Passed o' w) (hrises : w.accepted o.scope ≤ o.version)
    (hsame : o.version = w.accepted o.scope → ∀ f, w.fences.get? o.scope = some f →
      f.operationId = o.operationId) :
    Passed o' { w with fences := w.fences.set o.scope o.fence } := by
  rw [Passed, accepted_set]
  by_cases hs : o'.scope = o.scope
  · rw [if_pos hs]
    have hle : o'.version ≤ w.accepted o.scope := hs ▸ hpassed.1
    refine ⟨hle.trans hrises, ?_⟩
    intro heq
    -- the version was accepted before, so the fence keeps its operation
    have hold : o'.version = w.accepted o.scope := le_antisymm hle (heq ▸ hrises)
    obtain ⟨f, hf, hid⟩ := hpassed.2 (hs ▸ hold)
    rw [hs] at hf
    refine ⟨o.fence, by rw [hs, Dict.get?_set, if_pos rfl], ?_⟩
    rw [← hid, hsame (heq.symm.trans hold) f hf]
    rfl
  · rw [if_neg hs]
    refine ⟨hpassed.1, ?_⟩
    intro heq
    obtain ⟨f, hf, hid⟩ := hpassed.2 heq
    exact ⟨f, by rw [Dict.get?_set, if_neg hs, hf], hid⟩

theorem Bound.set_row {id : String} {r : Row Hash} {h' : Hash} (hb : Bound o' h' w)
    (hr : ∀ old, w.rows.get? id = some old → r.operation = old.operation ∧
      r.requestHash = old.requestHash) :
    Bound o' h' { w with rows := w.rows.set id r } := by
  obtain ⟨old, hold, ho, hh⟩ := hb
  by_cases hid : o'.operationId = id
  · obtain ⟨hro, hrh⟩ := hr old (hid ▸ hold)
    exact ⟨r, by rw [Dict.get?_set, if_pos hid], hro.trans ho, hrh.trans hh⟩
  · exact ⟨old, by rw [Dict.get?_set, if_neg hid, hold], ho, hh⟩

/-- What a worker may do: it changes what belongs to a scope only under the lock of the scope. -/
structure May (v : Worker) (a b : Store Hash Worker) : Prop where
  locks : ∀ s u, u ≠ v → (a.holder s = some u ↔ b.holder s = some u)
  fences : ∀ s, a.holder s ≠ some v → b.fences.get? s = a.fences.get? s
  rising : ∀ s, a.accepted s ≤ b.accepted s
  bound : ∀ o h, Bound o h a → Bound o h b
  log : ∃ events, b.log = events ++ a.log ∧
    ∀ o h r, .invoked o h r ∈ events → a.holder o.scope = some v ∧ Bound o h a

variable {v : Worker} {b c : Store Hash Worker}

theorem May.refl : May v w w :=
  ⟨fun _ _ _ => Iff.rfl, fun _ _ => rfl, fun _ => le_rfl, fun _ _ hb => hb, [], rfl, by nofun⟩

theorem May.set_row {id : String} {r : Row Hash}
    (hr : ∀ old, w.rows.get? id = some old → r.operation = old.operation ∧
      r.requestHash = old.requestHash) :
    May v w { w with rows := w.rows.set id r } :=
  ⟨fun _ _ _ => Iff.rfl, fun _ _ => rfl, fun _ => le_rfl, fun _ _ hb => hb.set_row hr, [],
    rfl, by nofun⟩

theorem May.set_fence (hheld : w.holder o.scope = some v)
    (hrises : w.accepted o.scope ≤ o.version) :
    May v w { w with fences := w.fences.set o.scope o.fence } := by
  refine ⟨fun _ _ _ => Iff.rfl, ?_, ?_, fun _ _ hb => hb, [], rfl, by nofun⟩
  · intro s hs
    have hne : s ≠ o.scope := by
      rintro rfl
      exact hs hheld
    rw [Dict.get?_set, if_neg hne]
  · intro s
    rw [accepted_set]
    split
    next heq => exact heq ▸ hrises
    · exact le_rfl

theorem May.and_then (hab : May v a b) (hbc : May v b c) (hholder : b.holder = a.holder)
    (hlog : c.log = b.log) :
    May v a c := by
  refine ⟨?_, ?_, fun s => (hab.rising s).trans (hbc.rising s),
    fun o h hb => hbc.bound o h (hab.bound o h hb), ?_⟩
  · intro s u hne
    exact (hab.locks s u hne).trans (hbc.locks s u hne)
  · intro s hs
    rw [hbc.fences s (hholder ▸ hs), hab.fences s hs]
  · rw [hlog]
    exact hab.log

theorem decision_go {row : Option (Row Hash)}
    (hgo : (!(decision o row (w.fences.get? o.scope)).stale &&
      !(decision o row (w.fences.get? o.scope)).conflict &&
      !(decision o row (w.fences.get? o.scope)).terminal) = true) :
    w.accepted o.scope ≤ o.version ∧
      (o.version = w.accepted o.scope → ∀ f, w.fences.get? o.scope = some f →
        f.operationId = o.operationId) := by
  simp only [Bool.and_eq_true, Bool.not_eq_true', decision, decide_eq_false_iff_not, not_lt] at hgo
  obtain ⟨⟨hstale, hconflict⟩, -⟩ := hgo
  refine ⟨hstale, ?_⟩
  intro hversion f hf
  rw [Store.accepted, hf] at hversion
  rw [hf] at hconflict
  simpa [hversion] using hconflict

end Tables

section Log

variable [DecidableEq Hash] {o : Operation} {h : Hash} {log : List (Event Hash)}

/-- Since the last time it was invoked, a readback has said that the operation is not applied. -/
def Retryable (o : Operation) (h : Hash) : List (Event Hash) → Prop
  | [] => True
  | .invoked o' _ _ :: rest => o'.operationId ≠ o.operationId ∧ Retryable o h rest
  | .readback o' h' evidence :: rest =>
    (o' = o ∧ h' = h ∧ observe o h evidence = .notApplied) ∨ Retryable o h rest

def Spaced : List (Event Hash) → Prop
  | [] => True
  | .invoked o h _ :: rest => Retryable o h rest ∧ Spaced rest
  | .readback _ _ _ :: rest => Spaced rest

theorem Retryable.append {events : List (Event Hash)} (hlog : Retryable o h log)
    (hother : ∀ o' h' r, .invoked o' h' r ∈ events → o'.operationId ≠ o.operationId) :
    Retryable o h (events ++ log) := by
  induction events with
  | nil => exact hlog
  | cons e events ih =>
    have hrest := ih (fun o' h' r hmem => hother o' h' r (List.mem_cons_of_mem e hmem))
    cases e with
    | invoked o' h' r => exact ⟨hother o' h' r List.mem_cons_self, hrest⟩
    | readback o' h' evidence => exact .inr hrest

theorem retryable_of_never (hnever : ∀ o' h' r, .invoked o' h' r ∈ log →
    o'.operationId ≠ o.operationId) :
    Retryable o h log := by
  have hempty : Retryable o h [] := trivial
  simpa using hempty.append hnever

theorem Retryable.split {o' : Operation} {h' : Hash} {r : Outcome}
    {between earlier : List (Event Hash)}
    (hlog : Retryable o h (between ++ .invoked o' h' r :: earlier))
    (hsame : o'.operationId = o.operationId) :
    ∃ evidence, .readback o h evidence ∈ between ∧ observe o h evidence = .notApplied := by
  induction between with
  | nil => exact absurd hsame hlog.1
  | cons e between ih =>
    cases e with
    | invoked o'' h'' r' =>
      obtain ⟨evidence, hmem, hobserved⟩ := ih hlog.2
      exact ⟨evidence, List.mem_cons_of_mem _ hmem, hobserved⟩
    | readback o'' h'' evidence =>
      obtain ⟨rfl, rfl, hobserved⟩ | hrest := hlog
      · exact ⟨evidence, List.mem_cons_self, hobserved⟩
      · obtain ⟨evidence', hmem, hobserved⟩ := ih hrest
        exact ⟨evidence', List.mem_cons_of_mem _ hmem, hobserved⟩

theorem Spaced.suffix {later rest : List (Event Hash)} (h : Spaced (later ++ rest)) :
    Spaced rest := by
  induction later with
  | nil => exact h
  | cons e later ih =>
    cases e with
    | invoked o h' r => exact ih h.2
    | readback o h' evidence => exact ih h

end Log

section Invariant

variable [DecidableEq Hash] {digest : Digest Payload Hash} {o : Operation} {w : Store Hash Worker}

def Applied (o : Operation) (w : Store Hash Worker) : Prop :=
  (∃ h r, .invoked o h r ∈ w.log) ∨ ∃ r, w.rows.get? o.operationId = some r ∧ r.operation = o ∧
    r.status = .applied

def Single (w : Store Hash Worker) : Prop :=
  ∀ o₁ o₂, Applied o₁ w → Applied o₂ w → o₁.scope = o₂.scope → o₁.version = o₂.version →
    o₁.operationId = o₂.operationId

structure Inv (digest : Digest Payload Hash) (w : Store Hash Worker) : Prop where
  keyed : ∀ id r, w.rows.get? id = some r →
    r.operation.operationId = id ∧ ∃ payload, r.requestHash = digest.requestHash r.operation payload
  bound : ∀ o h r, .invoked o h r ∈ w.log → Bound o h w
  passed : ∀ o, Applied o w → Passed o w
  single : Single w
  spaced : Spaced w.log

omit [DecidableEq Hash] in
theorem Passed.unique {o' : Operation} (hpassed : Passed o' w) (hcurrent : Current o w)
    (hscope : o'.scope = o.scope) (hversion : o'.version = o.version) :
    o'.operationId = o.operationId := by
  have haccepted : w.accepted o'.scope = o.version := by
    rw [Store.accepted, hscope, hcurrent]
    rfl
  obtain ⟨f, hf, hid⟩ := hpassed.2 (hversion.trans haccepted.symm)
  rw [hscope, hcurrent] at hf
  rw [← hid, ← Option.some.inj hf]
  rfl

theorem Inv.applied_current (hinv : Inv digest w) {w' : Store Hash Worker}
    (hnew : ∀ o, Applied o w' → Applied o w ∨ Current o w) (hfences : w'.fences = w.fences) :
    (∀ o, Applied o w' → Passed o w') ∧ Single w' := by
  have hpassed : ∀ o, Applied o w' → Passed o w := by
    intro o ho
    obtain hold | hcurrent := hnew o ho
    · exact hinv.passed o hold
    · exact .of_current hcurrent
  constructor
  · intro o ho
    simpa only [Passed, Store.accepted, hfences] using hpassed o ho
  intro o₁ o₂ h₁ h₂ hscope hversion
  obtain hold₁ | hcurrent₁ := hnew o₁ h₁
  · obtain hold₂ | hcurrent₂ := hnew o₂ h₂
    · exact hinv.single o₁ o₂ hold₁ hold₂ hscope hversion
    · exact (hpassed o₁ h₁).unique hcurrent₂ hscope hversion
  · exact ((hpassed o₂ h₂).unique hcurrent₁ hscope.symm hversion.symm).symm

theorem Inv.set_row (hinv : Inv digest w) {id : String} {r : Row Hash}
    (hkeyed : r.operation.operationId = id ∧
      ∃ payload, r.requestHash = digest.requestHash r.operation payload)
    (hr : ∀ old, w.rows.get? id = some old → r.operation = old.operation ∧
      r.requestHash = old.requestHash)
    (happlied : r.status = .applied → Current r.operation w) :
    Inv digest { w with rows := w.rows.set id r } := by
  have hnew : ∀ o, Applied o { w with rows := w.rows.set id r } → Applied o w ∨ Current o w := by
    rintro o (hlog | ⟨r', hr', ho, hstatus⟩)
    · exact .inl (.inl hlog)
    rw [Dict.get?_set] at hr'
    split at hr'
    · obtain rfl := Option.some.inj hr'
      exact .inr (ho ▸ happlied hstatus)
    · exact .inl (.inr ⟨r', hr', ho, hstatus⟩)
  obtain ⟨hpassed, hsingle⟩ := hinv.applied_current hnew rfl
  refine ⟨?_, fun o h r' hmem => (hinv.bound o h r' hmem).set_row hr, hpassed, hsingle, hinv.spaced⟩
  intro id' r' hr'
  rw [Dict.get?_set] at hr'
  split at hr'
  next heq =>
    obtain rfl := Option.some.inj hr'
    exact heq ▸ hkeyed
  · exact hinv.keyed id' r' hr'

theorem Inv.set_fence (hinv : Inv digest w) (hrises : w.accepted o.scope ≤ o.version)
    (hsame : o.version = w.accepted o.scope → ∀ f, w.fences.get? o.scope = some f →
      f.operationId = o.operationId) :
    Inv digest { w with fences := w.fences.set o.scope o.fence } :=
  ⟨hinv.keyed, hinv.bound, fun o' ho' => (hinv.passed o' ho').set_fence hrises hsame, hinv.single,
    hinv.spaced⟩

structure Mine (digest : Digest Payload Hash) (v : Worker) (o : Operation) (h : Hash)
    (w : Store Hash Worker) : Prop where
  inv : Inv digest w
  held : w.holder o.scope = some v
  current : Current o w
  bound : Bound o h w

variable {v : Worker} {h : Hash} {payload : Payload}

structure Written (digest : Digest Payload Hash) (v : Worker) (o : Operation) (h : Hash)
    (w : Store Hash Worker) (rows : Dict String (Row Hash)) : Prop where
  inv : Inv digest { w with rows := rows }
  may : May v w { w with rows := rows }
  bound : Bound o h { w with rows := rows }

theorem write_row (hinv : Inv digest w) (hh : h = digest.requestHash o payload)
    (hold : ∀ old, w.rows.get? o.operationId = some old → old.operation = o ∧ old.requestHash = h)
    {status : Status} (hstatus : status = .applied → Current o w) (reason : Option Reason) :
    Written digest v o h w (w.rows.set o.operationId ⟨o, h, status, reason⟩) := by
  have hsame : ∀ old, w.rows.get? o.operationId = some old → o = old.operation ∧
    h = old.requestHash :=
    fun old h => ⟨(hold old h).1.symm, (hold old h).2.symm⟩
  exact ⟨hinv.set_row ⟨rfl, payload, hh⟩ hsame hstatus, .set_row hsame,
    _, by rw [Dict.get?_set, if_pos rfl], rfl, rfl⟩

theorem fence_step (hinv : Inv digest w) (hheld : w.holder o.scope = some v)
    (hbound : Bound o h w) {go : Bool} (hrises : go = true → w.accepted o.scope ≤ o.version)
    (hsame : go = true → o.version = w.accepted o.scope →
      ∀ f, w.fences.get? o.scope = some f → f.operationId = o.operationId) :
    Inv digest { w with fences := if go then w.fences.set o.scope o.fence else w.fences } ∧
      May v w { w with fences := if go then w.fences.set o.scope o.fence else w.fences } ∧
      (go = true → Mine digest v o h { w with
        fences := if go then w.fences.set o.scope o.fence else w.fences }) := by
  cases go with
  | false => exact ⟨hinv, .refl, by nofun⟩
  | true =>
    have hinv' := hinv.set_fence (hrises rfl) (hsame rfl)
    refine ⟨hinv', .set_fence hheld (hrises rfl), ?_⟩
    intro _
    exact ⟨hinv', hheld, by simp [Current, Dict.get?_set], hbound⟩

theorem accept_halves {rows : Dict String (Row Hash)} (hrows : Written digest v o h w rows)
    (hheld : w.holder o.scope = some v) (row : Option (Row Hash)) {go : Bool}
    (hgo : go = (!(decision o row (w.fences.get? o.scope)).stale &&
      !(decision o row (w.fences.get? o.scope)).conflict &&
      !(decision o row (w.fences.get? o.scope)).terminal)) :
    Inv digest { w with
      rows := rows, fences := if go then w.fences.set o.scope o.fence else w.fences } ∧
      May v w { w with
        rows := rows, fences := if go then w.fences.set o.scope o.fence else w.fences } ∧
      (go = true → Mine digest v o h
        { w with
          rows := rows, fences := if go then w.fences.set o.scope o.fence else w.fences }) := by
  subst hgo
  obtain ⟨hinv, hmay, hmine⟩ := fence_step hrows.inv hheld hrows.bound
    (fun hgo => (decision_go hgo).1) (fun hgo => (decision_go hgo).2)
  exact ⟨hinv, hrows.may.and_then hmay rfl rfl, hmine⟩

theorem accept_spec (hdigest : digest.Separates) (hinv : Inv digest w)
    (hheld : w.holder o.scope = some v) (hh : h = digest.requestHash o payload) :
    Inv digest (w.accept o h).2 ∧ May v w (w.accept o h).2 ∧
      ∀ d, (w.accept o h).1 = .ok d → (!d.stale && !d.conflict && !d.terminal) = true →
        Mine digest v o h (w.accept o h).2 ∧
        (d.replayed = false → Retryable o h (w.accept o h).2.log) := by
  simp only [Store.accept]
  split
  · exact ⟨hinv, .refl, by simp⟩
  next hconflict =>
    cases hrow : w.rows.get? o.operationId with
    | none =>
      -- an operation without a row was never invoked
      have hnever : Retryable o h w.log := by
        apply retryable_of_never
        intro o' h' r hmem hid
        obtain ⟨old, hold, -⟩ := hinv.bound o' h' r hmem
        rw [hid, hrow] at hold
        cases hold
      have hstatus : ∀ b : Bool, (if b then Status.rejected else Status.applying) = .applied →
          Current o w := by
        intro b
        cases b <;> simp
      obtain ⟨hinv', hmay, hmine⟩ :=
        accept_halves (write_row hinv hh (by simp [hrow]) (hstatus _) _) hheld none rfl
      refine ⟨hinv', hmay, ?_⟩
      rintro d ⟨⟩ hgo
      exact ⟨hmine hgo, fun _ => hnever⟩
    | some r =>
      have hhash : r.requestHash = h := by simpa [hrow] using hconflict
      obtain ⟨hid, payload', hpayload⟩ := hinv.keyed _ r hrow
      have ho : r.operation = o := hdigest _ _ _ _ (hpayload.symm.trans (hhash.trans hh))
      obtain ⟨operation, requestHash, status, reason⟩ := r
      subst hhash ho
      have hrows : ∀ b : Bool, Written digest v operation requestHash w (if b then
          w.rows.set operation.operationId ⟨operation, requestHash, .rejected, some .staleVersion⟩
            else w.rows) := by
        intro b
        cases b with
        | false => exact ⟨hinv, .refl, _, hrow, rfl, rfl⟩
        | true => exact write_row hinv hh (by simp [hrow]) Status.noConfusion _
      obtain ⟨hinv', hmay, hmine⟩ := accept_halves (hrows _) hheld (some _) rfl
      refine ⟨hinv', hmay, ?_⟩
      rintro d ⟨⟩ hgo
      exact ⟨hmine hgo, by rintro ⟨⟩⟩

theorem finish_spec (hinv : Inv digest w) (hh : h = digest.requestHash o payload)
    (hbound : Bound o h w) (status : Status) (reason : Option Reason) :
    ∃ rows, (w.finish o status reason).2 = { w with rows := rows } ∧
    Written digest v o h w rows := by
  obtain ⟨r, hr, rfl, rfl⟩ := hbound
  simp only [Store.finish, hr]
  split
  next hcurrent =>
    exact ⟨_, rfl, write_row hinv hh (by simp [hr]) (fun _ => hcurrent) reason⟩
  · exact ⟨w.rows, rfl, hinv, .refl, r, hr, rfl, rfl⟩

theorem read_bound (hdigest : digest.Separates) (hinv : Inv digest w) {found : Receipt Hash}
    (hread : w.read o.operationId = some found)
    (hhash : found.requestHash = digest.requestHash o payload) :
    Bound o (digest.requestHash o payload) w := by
  simp only [Store.read] at hread
  split at hread
  · cases hread
  next r hr =>
    obtain ⟨fence, -, rfl⟩ := Option.map_eq_some_iff.mp hread
    obtain ⟨-, payload', hpayload⟩ := hinv.keyed _ r hr
    exact ⟨r, hr, hdigest _ _ _ _ (hpayload.symm.trans hhash), hhash⟩

theorem Inv.readback (hinv : Inv digest w) (evidence : Option (Observation Hash)) :
    Inv digest { w with log := .readback o h evidence :: w.log } := by
  have hsame : ∀ o', Applied o' { w with log := .readback o h evidence :: w.log } →
      Applied o' w := by
    rintro o' (⟨h', r, hmem⟩ | hrow)
    · exact .inl ⟨h', r, by simpa using hmem⟩
    · exact .inr hrow
  refine ⟨hinv.keyed, ?_, fun o' ho' => hinv.passed o' (hsame o' ho'),
    fun o₁ o₂ h₁ h₂ => hinv.single o₁ o₂ (hsame o₁ h₁) (hsame o₂ h₂), hinv.spaced⟩
  intro o' h' r hmem
  exact hinv.bound o' h' r (by simpa using hmem)

theorem mine_readback (w : Store Hash Worker) (evidence : Option (Observation Hash))
    (hw : Mine digest v o h w) :
    Mine digest v o h { w with log := .readback o h evidence :: w.log } :=
  ⟨hw.inv.readback evidence, hw.held, hw.current, hw.bound⟩

theorem Mine.invoked (hmine : Mine digest v o h w) (hretryable : Retryable o h w.log)
    (outcome : Outcome) :
    Mine digest v o h { w with log := .invoked o h outcome :: w.log } := by
  have hnew : ∀ o', Applied o' { w with log := .invoked o h outcome :: w.log } → Applied o' w ∨
      Current o' w := by
    rintro o' (⟨h', r, hmem⟩ | hrow)
    · obtain heq | hmem := List.mem_cons.mp hmem
      · cases heq
        exact .inr hmine.current
      · exact .inl (.inl ⟨h', r, hmem⟩)
    · exact .inl (.inr hrow)
  obtain ⟨hpassed, hsingle⟩ := hmine.inv.applied_current hnew rfl
  refine ⟨⟨hmine.inv.keyed, ?_, hpassed, hsingle, hretryable, hmine.inv.spaced⟩, hmine.held,
    hmine.current, hmine.bound⟩
  intro o' h' r hmem
  obtain heq | hmem := List.mem_cons.mp hmem
  · cases heq
    exact hmine.bound
  · exact hmine.inv.bound o' h' r hmem

theorem inv_empty (digest : Digest Payload Hash) : Inv digest ({} : Store Hash Worker) := by
  have hnone : ∀ o, ¬ Applied o ({} : Store Hash Worker) := by
    rintro o (⟨h, r, hmem⟩ | ⟨r, hr, -⟩)
    · cases hmem
    · cases hr
  exact ⟨by nofun, by nofun, fun o ho => absurd ho (hnone o),
    fun o _ ho => absurd ho (hnone o), trivial⟩

end Invariant

end NodeManager.OperationFencing
