import NodeManager.IdempotencyStore

namespace NodeManager.IdempotencyRules

open Dictionary IdempotencyStore Retention

variable {Payload Slot Result Worker : Type}

section Receipts

variable (limits : Limits) (key : String)

/-- The key has a receipt that is within the retention time and has few newer ones. -/
structure Live (e : Entry Result) (w : World Slot Result Worker) : Prop where
  filed : w.file.get? key = some e
  retained : w.clock ≤ e.createdAt + limits.retention
  newer : (newer Entry.createdAt w.file key).length < limits.maxEntries

def Clear (w : World Slot Result Worker) : Prop := ∀ e, ¬ Live limits key e w

def Owing (fingerprint : String) (result : Result) (w : World Slot Result Worker) : Prop :=
  (w.log key).head? = some (.completed fingerprint result)

def Quiet (w : World Slot Result Worker) : Prop :=
  ∀ fingerprint result, ¬ Owing key fingerprint result w

structure Suits (bound : String) (response : Option Result) (fingerprint : String)
    (outcome : Outcome Result) : Prop where
  refused : bound ≠ fingerprint → outcome = .error (.conflict .differentRequest)
  replayed : bound = fingerprint → ∀ r, response = some r → ∃ replayed, outcome = .ok (r, replayed)

def Agrees (fingerprint : String) (outcome : Outcome Result)
    (w : World Slot Result Worker) : Prop :=
  ∀ e, Live limits key e w → Suits e.fingerprint e.response fingerprint outcome

def Renewable (fingerprint : String) (w : World Slot Result Worker) : Prop :=
  ∀ e, Live limits key e w → e.fingerprint = fingerprint ∧ e.response = none

variable {limits key} {w : World Slot Result Worker} {fingerprint : String}

theorem Clear.agrees (hw : Clear limits key w) (outcome : Outcome Result) :
    Agrees limits key fingerprint outcome w := fun e he => absurd he (hw e)

theorem Clear.renewable (hw : Clear limits key w) : Renewable limits key fingerprint w :=
  fun e he => absurd he (hw e)

theorem Renewable.agrees (hw : Renewable limits key fingerprint w) (outcome : Outcome Result) :
    Agrees limits key fingerprint outcome w := by
  intro e he
  obtain ⟨hbound, hnone⟩ := hw e he
  refine ⟨fun hne => absurd hbound hne, ?_⟩
  intro _ r hr
  cases hnone.symm.trans hr

end Receipts

def Requested (site : Site Payload Slot) (e : Entry Result) : Prop :=
  ∃ operation payload, e.fingerprint = site.fingerprint operation payload ∧
    (if e.response.isNone then site.reconciling operation else site.idempotent operation) = true

def Hushed (site : Site Payload Slot) (key : String) (w : World Slot Result Worker) : Prop :=
  ∀ key', site.slot key' = site.slot key → Quiet key' w

/-- Every receipt is of a request, and a callback that is owed one has the lock of its key. -/
structure Inv (site : Site Payload Slot) (w : World Slot Result Worker) : Prop where
  filed : ∀ key e, w.file.get? key = some e → Requested site e
  owed : ∀ key fingerprint result, Owing key fingerprint result w →
    ∃ v, w.requestHolder (site.slot key) = some v

theorem inv_start (site : Site Payload Slot) : Inv site ({} : World Slot Result Worker) :=
  ⟨by nofun, by nofun⟩

variable [DecidableEq Slot]

inductive May (site : Site Payload Slot) (v : Worker) :
    World Slot Result Worker → World Slot Result Worker → Prop
  | idle (w) : May site v w w
  | lockRequest (w) (key : String) (free : w.requestHolder (site.slot key) = none) :
    May site v w { w with
      requestHolder := Function.update w.requestHolder (site.slot key) (some v) }
  | leaveRequest (w) (key fingerprint : String) (outcome : Outcome Result)
    (held : w.requestHolder (site.slot key) = some v) (hushed : Hushed site key w)
    (agrees : Agrees site.limits key fingerprint outcome w) :
    May site v w { w with
      requestHolder := Function.update w.requestHolder (site.slot key) none
      log := Function.update w.log key (.left fingerprint outcome :: w.log key) }
  | lockStore (w) (free : w.storeHolder = none) : May site v w { w with storeHolder := some v }
  | unlockStore (w) (held : w.storeHolder = some v) : May site v w { w with storeHolder := none }
  | wait (w) (elapsed : Nat) : May site v w { w with clock := w.clock + elapsed }
  | complete (w) (key fingerprint : String) (result : Result)
    (held : w.requestHolder (site.slot key) = some v) (hushed : Hushed site key w)
    (clear : Clear site.limits key w) :
    May site v w { w with
      log := Function.update w.log key (.completed fingerprint result :: w.log key) }
  | store (w) (key : String) (e : Entry Result) (now : Nat)
    (held : w.requestHolder (site.slot key) = some v) (locked : w.storeHolder = some v)
    (past : now ≤ w.clock) (requested : Requested site e)
    (renews : e.response = none ∧ Renewable site.limits key e.fingerprint w ∨
    Clear site.limits key w) (owed : ∀ fingerprint result, Owing key fingerprint result w →
      e.fingerprint = fingerprint ∧ e.response = some result) :
    May site v w { w with
      file := (prune Entry.createdAt site.limits now w.file).set key e
      log := Function.update w.log key (.stored :: w.log key) }

variable {site : Site Payload Slot} {u v : Worker} {a b : World Slot Result Worker} {key : String}

theorem May.inv (hinv : Inv site a) (hmay : May site v a b) : Inv site b := by
  cases hmay with
  | lockRequest key free =>
    refine ⟨hinv.filed, ?_⟩
    intro key' fingerprint result howing
    by_cases hslot : site.slot key' = site.slot key
    · exact ⟨v, by simp [hslot]⟩
    · simpa [hslot] using hinv.owed key' fingerprint result howing
  | leaveRequest key fingerprint outcome held hushed agrees =>
    refine ⟨hinv.filed, ?_⟩
    intro key' fingerprint' result howing
    by_cases hkey : key' = key
    · subst hkey
      simp [Owing] at howing
    have howing : Owing key' fingerprint' result a := by simpa [Owing, hkey] using howing
    have hslot : site.slot key' ≠ site.slot key := fun heq => hushed key' heq _ _ howing
    simpa [hslot] using hinv.owed key' fingerprint' result howing
  | complete key fingerprint result held hushed clear =>
    refine ⟨hinv.filed, ?_⟩
    intro key' fingerprint' result' howing
    by_cases hkey : key' = key
    · subst hkey
      exact ⟨v, held⟩
    · exact hinv.owed key' fingerprint' result' (by simpa [Owing, hkey] using howing)
  | store key e now held locked past requested renews owed =>
    constructor
    · intro key' e' he'
      rw [Dict.get?_set] at he'
      split at he'
      · cases he'
        exact requested
      · rw [get?_prune, Option.filter_eq_some_iff] at he'
        exact hinv.filed key' e' he'.1
    · intro key' fingerprint' result' howing
      by_cases hkey : key' = key
      · subst hkey
        exact ⟨v, held⟩
      · exact hinv.owed key' fingerprint' result' (by simpa [Owing, hkey] using howing)
  | _ => exact ⟨hinv.filed, hinv.owed⟩

structure Undisturbed (site : Site Payload Slot) (v : Worker) (key : String)
    (a b : World Slot Result Worker) : Prop where
  held : b.requestHolder (site.slot key) = some v
  log : ∀ key', site.slot key' = site.slot key → b.log key' = a.log key'
  live : ∀ e, Live site.limits key e b → Live site.limits key e a

theorem May.undisturbed (hmay : May site u a b) (hne : u ≠ v)
    (hheld : a.requestHolder (site.slot key) = some v) :
    Undisturbed site v key a b := by
  have hother : ∀ {key'}, a.requestHolder (site.slot key') = some u →
      site.slot key ≠ site.slot key' := by
    intro key' hu heq
    rw [heq, hu] at hheld
    exact hne (Option.some.inj hheld)
  have hlog : ∀ {key'} event, a.requestHolder (site.slot key') = some u →
      ∀ key'', site.slot key'' = site.slot key →
        Function.update a.log key' (event :: a.log key') key'' = a.log key'' := by
    intro key' event hu key'' hslot
    have hkey : key'' ≠ key' := fun heq => hother hu (by rw [← hslot, heq])
    simp [hkey]
  cases hmay with
  | idle => exact ⟨hheld, fun _ _ => rfl, fun _ he => he⟩
  | lockRequest key' free =>
    have hslot : site.slot key ≠ site.slot key' := by
      intro heq
      rw [heq, free] at hheld
      cases hheld
    exact ⟨by simpa [hslot] using hheld, fun _ _ => rfl, fun _ he => { he with }⟩
  | leaveRequest key' fingerprint outcome held hushed agrees =>
    have hslot := hother held
    exact ⟨by simpa [hslot] using hheld, hlog _ held, fun _ he => { he with }⟩
  | lockStore free => exact ⟨hheld, fun _ _ => rfl, fun _ he => { he with }⟩
  | unlockStore held => exact ⟨hheld, fun _ _ => rfl, fun _ he => { he with }⟩
  | wait elapsed =>
    exact ⟨hheld, fun _ _ => rfl, fun _ he =>
      ⟨he.filed, (Nat.le_add_right _ _).trans he.retained, he.newer⟩⟩
  | complete key' fingerprint result held hushed clear =>
    exact ⟨hheld, hlog _ held, fun _ he => { he with }⟩
  | store key' e' now held locked past requested renews owed =>
    have hkey : key ≠ key' := fun heq => hother held (congrArg site.slot heq)
    refine ⟨hheld, hlog _ held, ?_⟩
    intro e he
    have hfiled := he.filed
    rw [Dict.get?_set, if_neg hkey, get?_prune, Option.filter_eq_some_iff,
      decide_eq_true_eq] at hfiled
    exact ⟨hfiled.1, he.retained, hfiled.2.2⟩

theorem May.unwritten (hmay : May site u a b) (hne : u ≠ v) (hheld : a.storeHolder = some v) :
    b.storeHolder = some v ∧ b.file = a.file := by
  have hother : a.storeHolder ≠ some u := by
    intro hu
    rw [hu] at hheld
    exact hne (Option.some.inj hheld)
  cases hmay with
  | lockStore free =>
    cases free.symm.trans hheld
  | unlockStore held => exact absurd held hother
  | store key' e' now held locked past requested renews owed => exact absurd locked hother
  | _ => exact ⟨hheld, rfl⟩

section Answers

def Filed (key bound : String) (response : Option Result) (w : World Slot Result Worker) : Prop :=
  ∃ e, w.file.get? key = some e ∧ e.fingerprint = bound ∧ e.response = response

def Seen (key bound : String) (response : Option Result) (w : World Slot Result Worker) : Prop :=
  (∃ r, response = some r ∧ Owing key bound r w) ∨ Filed key bound response w

def Answered (bound : String) (response : Option Result) : Event Result → Prop
  | .completed _ _ => False
  | .stored => True
  | .left fingerprint outcome => Suits bound response fingerprint outcome

theorem May.live {e : Entry Result} (hmay : May site v a b) (he : Live site.limits key e a) :
    Filed key e.fingerprint e.response b ∧
      ∃ new, b.log key = new ++ a.log key ∧
      ∀ event ∈ new, Answered e.fingerprint e.response event := by
  have hfiled : Filed key e.fingerprint e.response a := ⟨e, he.filed, rfl, rfl⟩
  cases hmay with
  | leaveRequest key' fingerprint outcome held hushed agrees =>
    refine ⟨hfiled, ?_⟩
    by_cases hkey : key = key'
    · subst hkey
      exact ⟨[.left fingerprint outcome], by simp, by simpa [Answered] using agrees e he⟩
    · exact ⟨[], by simp [hkey], by nofun⟩
  | complete key' fingerprint result held hushed clear =>
    refine ⟨hfiled, [], ?_, by nofun⟩
    have hkey : key ≠ key' := by
      rintro rfl
      exact clear e he
    simp [hkey]
  | store key' e' now held locked past requested renews owed =>
    by_cases hkey : key = key'
    · subst hkey
      refine ⟨?_, [.stored], by simp, by simp [Answered]⟩
      obtain ⟨hnone, hrenews⟩ | hclear := renews
      · obtain ⟨hbound, hold⟩ := hrenews e he
        exact ⟨e', by simp [Dict.get?_set], hbound.symm, hnone.trans hold.symm⟩
      · exact absurd he (hclear e)
    · refine ⟨⟨e, ?_, rfl, rfl⟩, [], by simp [hkey], by nofun⟩
      rw [Dict.get?_set, if_neg hkey, get?_prune, Option.filter_eq_some_iff, decide_eq_true_eq]
      exact ⟨he.filed, past.trans he.retained, he.newer⟩
  | _ => exact ⟨hfiled, [], rfl, by nofun⟩

theorem May.owing {bound : String} {r : Result} (hmay : May site v a b) (ha : Owing key bound r a) :
    Seen key bound (some r) b ∧ ∃ new, b.log key = new ++ a.log key ∧
    ∀ event ∈ new, Answered bound (some r) event := by
  have hseen : Seen key bound (some r) a := .inl ⟨r, rfl, ha⟩
  cases hmay with
  | leaveRequest key' fingerprint outcome held hushed agrees =>
    have hkey : key ≠ key' := by
      rintro rfl
      exact hushed key rfl _ _ ha
    exact ⟨.inl ⟨r, rfl, by simpa [Owing, hkey] using ha⟩, [], by simp [hkey], by nofun⟩
  | complete key' fingerprint result held hushed clear =>
    have hkey : key ≠ key' := by
      rintro rfl
      exact hushed key rfl _ _ ha
    exact ⟨.inl ⟨r, rfl, by simpa [Owing, hkey] using ha⟩, [], by simp [hkey], by nofun⟩
  | store key' e' now held locked past requested renews owed =>
    by_cases hkey : key = key'
    · subst hkey
      obtain ⟨hbound, hresponse⟩ := owed _ _ ha
      exact ⟨.inr ⟨e', by simp [Dict.get?_set], hbound, hresponse⟩,
        [.stored], by simp, by simp [Answered]⟩
    · exact ⟨.inl ⟨r, rfl, by simpa [Owing, hkey] using ha⟩, [], by simp [hkey], by nofun⟩
  | _ => exact ⟨hseen, [], rfl, by nofun⟩

theorem May.log (hmay : May site v a b) (key : String) :
    b.log key = a.log key ∨ ∃ event, b.log key = event :: a.log key := by
  have hupdate : ∀ key' (event : Event Result),
      Function.update a.log key' (event :: a.log key') key = a.log key ∨
        ∃ latest, Function.update a.log key' (event :: a.log key') key = latest :: a.log key := by
    intro key' event
    by_cases hkey : key = key'
    · subst hkey
      exact .inr ⟨event, by simp⟩
    · exact .inl (by simp [hkey])
  cases hmay with
  | leaveRequest key' fingerprint outcome held hushed agrees => exact hupdate key' _
  | complete key' fingerprint result held hushed clear => exact hupdate key' _
  | store key' e' now held locked past requested renews owed => exact hupdate key' _
  | _ => exact .inl rfl

end Answers

theorem May.clock_le (hmay : May site u a b) : a.clock ≤ b.clock := by
  cases hmay with
  | wait elapsed => exact Nat.le_add_right _ _
  | _ => exact le_rfl

end NodeManager.IdempotencyRules
