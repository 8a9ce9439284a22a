import NodeManager.IdempotencyRules

namespace NodeManager.IdempotencyRuns

open Dictionary IdempotencyRules IdempotencyStore Programs Retention Runs Threads

variable {Payload Slot Result Worker α : Type}

class Steady (site : Site Payload Slot) (key : String)
    (P : World Slot Result Worker → Prop) : Prop where
  keep : ∀ a b, (∀ key', site.slot key' = site.slot key → b.log key' = a.log key') →
    (∀ e, Live site.limits key e b → Live site.limits key e a) → P a → P b

section Steady

variable {site : Site Payload Slot} {key fingerprint : String} {outcome : Outcome Result}
  {result : Result}

instance Steady.and {P P' : World Slot Result Worker → Prop} [hP : Steady site key P]
    [hP' : Steady site key P'] :
    Steady site key (fun w => P w ∧ P' w) :=
  ⟨fun a b hlog hlive h => ⟨hP.keep a b hlog hlive h.1, hP'.keep a b hlog hlive h.2⟩⟩

instance steady_hushed : Steady site key (Hushed site key : World Slot Result Worker → Prop) := by
  refine ⟨fun a b hlog _ ha key' hslot fingerprint result howing => ?_⟩
  rw [Owing, hlog key' hslot] at howing
  exact ha key' hslot fingerprint result howing

instance steady_clear : Steady site key (Clear site.limits key : World Slot Result Worker → Prop) :=
  ⟨fun _ _ _ hlive ha e he => ha e (hlive e he)⟩

instance steady_agrees :
    Steady site key (Agrees site.limits key fingerprint outcome : World Slot Result
      Worker → Prop) :=
  ⟨fun _ _ _ hlive ha e he => ha e (hlive e he)⟩

instance steady_renewable : Steady site key
    (Renewable site.limits key fingerprint : World Slot Result Worker → Prop) :=
  ⟨fun _ _ _ hlive ha e he => ha e (hlive e he)⟩

def Waiting (site : Site Payload Slot) (key fingerprint : String) (result : Result)
    (w : World Slot Result Worker) : Prop :=
  Owing key fingerprint result w ∧ ∀ key', site.slot key' = site.slot key → key' ≠ key →
    Quiet key' w

instance steady_waiting : Steady site key
    (Waiting site key fingerprint result : World Slot Result Worker → Prop) := by
  refine ⟨fun a b hlog _ ha => ⟨by simpa [Owing, hlog key rfl] using ha.1, ?_⟩⟩
  intro key' hslot hne fingerprint result howing
  rw [Owing, hlog key' hslot] at howing
  exact ha.2 key' hslot hne fingerprint result howing

def Settled (site : Site Payload Slot) (key fingerprint : String) (outcome : Outcome Result)
    (w : World Slot Result Worker) : Prop :=
    Hushed site key w ∧ Agrees site.limits key fingerprint outcome w

instance steady_settled : Steady site key
    (Settled site key fingerprint outcome : World Slot Result Worker → Prop) :=
  Steady.and

end Steady

structure Held (site : Site Payload Slot) (v : Worker) (key : String)
    (P : World Slot Result Worker → Prop) (w : World Slot Result Worker) : Prop where
  inv : Inv site w
  held : w.requestHolder (site.slot key) = some v
  holds : P w

structure Locked (site : Site Payload Slot) (v : Worker) (key : String)
    (P : World Slot Result Worker → Prop) (w : World Slot Result Worker) :
    Prop extends Held site v key P w where
  locked : w.storeHolder = some v

structure Read (site : Site Payload Slot) (v : Worker) (key : String)
    (P : World Slot Result Worker → Prop) (entries : Dict String (Entry Result)) (now : Nat)
    (w : World Slot Result Worker) : Prop extends Locked site v key P w where
  entries : entries = prune Entry.createdAt site.limits now w.file
  past : now ≤ w.clock

variable {site : Site Payload Slot} {v : Worker} {key fingerprint : String}
  {P : World Slot Result Worker → Prop} {w : World Slot Result Worker}
  {entries : Dict String (Entry Result)} {now : Nat} {existing : Entry Result}

theorem Read.relock (hw : Read site v key P entries now w) {P' : World Slot Result Worker → Prop}
    (h : P' w) :
    Locked site v key P' w := ⟨⟨hw.inv, hw.held, h⟩, hw.locked⟩

section

variable (hw : Read site v key P entries now w)
include hw

theorem Read.clear (hnone : entries.get? key = none) : Clear site.limits key w := by
  intro e he
  rw [hw.entries, get?_prune, Option.filter_eq_none_iff] at hnone
  have hdropped := hnone e he.filed
  rw [decide_eq_true_eq] at hdropped
  exact hdropped ⟨hw.past.trans he.retained, he.newer⟩

theorem Read.found (hsome : entries.get? key = some existing)
    (e : Entry Result) (he : Live site.limits key e w) : e = existing := by
  rw [hw.entries, get?_prune, Option.filter_eq_some_iff, he.filed] at hsome
  exact Option.some.inj hsome.1

theorem Read.requested (hsome : entries.get? key = some existing) : Requested site existing := by
  rw [hw.entries, get?_prune, Option.filter_eq_some_iff] at hsome
  exact hw.inv.filed key existing hsome.1

theorem Read.renewable (hsite : site.Sound) {operation : String} {payload : Payload}
    (hfp : fingerprint = site.fingerprint operation payload)
    (hop : site.reconciling operation = true)
    (hsame : (entries.get? key).any (fun existing => existing.fingerprint ≠ fingerprint) = false) :
    Renewable site.limits key fingerprint w := by
  cases hfound : entries.get? key with
  | none => exact (hw.clear hfound).renewable
  | some existing =>
    intro e he
    rw [hw.found hfound e he]
    have hbound : existing.fingerprint = fingerprint := by simpa [hfound] using hsame
    obtain ⟨operation', payload', hfp', hkind⟩ := hw.requested hfound
    obtain ⟨rfl, -⟩ := hsite.separates (hfp'.symm.trans (hbound.trans hfp))
    split at hkind
    next hnone => exact ⟨hbound, Option.isNone_iff_eq_none.mp hnone⟩
    · cases (hsite.apart _ hkind).symm.trans hop

theorem Read.refused (hother : (entries.get? key).any
    (fun existing => existing.fingerprint ≠ fingerprint) = true) :
    Agrees site.limits key fingerprint (.error (.conflict .differentRequest)) w := by
  intro e he
  cases hfound : entries.get? key with
  | none => simp [hfound] at hother
  | some existing =>
    rw [hw.found hfound e he]
    have hne : existing.fingerprint ≠ fingerprint := by simpa [hfound] using hother
    exact ⟨fun _ => rfl, fun heq => absurd heq hne⟩

end

variable [DecidableEq Slot]

def Needs (site : Site Payload Slot) (op : Op Result) (w : World Slot Result Worker) : Prop :=
  match op with
  | .callback (some identity) => Clear site.limits identity.key w
  | _ => True

def rules (site : Site Payload Slot) :
    Rules (site.machine false : Machine (World Slot Result Worker) Worker _ _ _ _) where
  Inv := Inv site
  May := May site
  Needs _ := Needs site

instance stable_inv : Stable (rules site : Rules
    (site.machine false : Machine (World Slot Result Worker) Worker _ _ _ _)) v (Inv
    site) := Stable.inv

instance stable_held [hP : Steady site key P] : Stable (rules site) v (Held site v key P) := by
  refine ⟨fun u hne a b ha hinv hmay => ?_⟩
  have hsame := May.undisturbed hmay hne ha.held
  exact ⟨hinv, hsame.held, hP.keep a b hsame.log hsame.live ha.holds⟩

instance stable_locked [Steady site key P] : Stable (rules site) v (Locked site v key P) :=
  ⟨fun u hne a b ha hinv hmay =>
    ⟨stable_held.keep u hne a b ha.toHeld hinv hmay, (May.unwritten hmay hne ha.locked).1⟩⟩

instance stable_read [Steady site key P] :
    Stable (rules site) v (Read site v key P entries now) := by
  refine ⟨fun u hne a b ha hinv hmay =>
    ⟨stable_locked.keep u hne a b ha.toLocked hinv hmay, ?_, ha.past.trans (May.clock_le hmay)⟩⟩
  rw [(May.unwritten hmay hne ha.locked).2]
  exact ha.entries

theorem secure_ask (op : Op Result) {Q : Answer op → World Slot Result Worker → Prop}
    {E : Failure → World Slot Result Worker → Prop} [Stable (rules site) v P]
    [∀ a, Stable (rules site) v (Q a)] [∀ e, Stable (rules site) v (E e)]
    (hinv : ∀ w, P w → Inv site w) (hw : P w)
    (hstep : ∀ w choice reply w', P w → site.respond false v choice op w = some (reply, w') →
      May site v w w' ∧ (Inv site w' → Replies Q E (reply, w')))
    (hneeds : ∀ w, P w → Needs site op w := by exact fun _ _ => trivial) :
    Secure (rules site) v Q E (ask op) w := by
  refine Secure.ask op hw ?_
  intro w hw
  refine ⟨hneeds w hw, ?_⟩
  intro choice reply w' hreply
  obtain ⟨hmay, hreplies⟩ := hstep w choice reply w' hw hreply
  have hinv' := hmay.inv (hinv w hw)
  exact ⟨hinv', hmay, hreplies hinv'⟩

theorem secure_lockRequest (hinv : Inv site w) (key : String) :
    Secure (rules site) v (fun _ => Held site v key (Hushed site key)) (fun _ => Inv site)
    (ask (.lockRequest key))
      w := by
  refine secure_ask (Op.lockRequest key) (fun _ h => h) hinv ?_
  intro w choice reply w' hw hreply
  simp only [Site.respond] at hreply
  split at hreply
  next hfree =>
    cases hreply
    refine ⟨.lockRequest w key hfree, ?_⟩
    intro hinv'
    refine ⟨hinv', by simp, ?_⟩
    intro key' hslot fingerprint result howing
    obtain ⟨u, hu⟩ := hw.owed key' fingerprint result howing
    rw [hslot, hfree] at hu
    cases hu
  · cases hreply

theorem secure_leaveRequest {outcome : Outcome Result}
    (hw : Held site v key (Settled site key fingerprint outcome) w) :
    Secure (rules site) v (fun _ => Inv site) (fun _ => Inv site)
    (ask (.leaveRequest key fingerprint outcome)) w := by
  refine secure_ask (Op.leaveRequest key fingerprint outcome) (fun _ h => h.inv) hw ?_
  intro w choice reply w' hw hreply
  cases hreply
  exact ⟨.leaveRequest w key fingerprint outcome hw.held hw.holds.1 hw.holds.2, fun hinv' => hinv'⟩

abbrev Serves (site : Site Payload Slot) (v : Worker) (key fingerprint : String)
    (Q : α → World Slot Result Worker → Prop) (p : Program Result α)
    (w : World Slot Result Worker) : Prop :=
  Secure (rules site) v (fun a => Held site v key (Q a))
    (fun e => Held site v key (Settled site key fingerprint (.error e))) p w

section Store

variable {Q : α → World Slot Result Worker → Prop} {E : Failure → World Slot Result Worker → Prop}
  [hP : Steady site key P] [∀ e, Stable (rules site) v (E e)]

theorem secure_lockStore (hw : Held site v key P w) :
    Secure (rules site) v (fun _ => Locked site v key P) E (ask .lockStore) w := by
  refine secure_ask Op.lockStore (fun _ h => h.inv) hw ?_
  intro w choice reply w' hw hreply
  simp only [Site.respond] at hreply
  split at hreply
  next hfree =>
    cases hreply
    refine ⟨.lockStore w hfree, ?_⟩
    intro hinv'
    exact ⟨⟨hinv', hw.held, hP.keep w _ (fun _ _ => rfl) (fun _ he => { he with }) hw.holds⟩, rfl⟩
  · cases hreply

theorem secure_unlockStore (hw : Locked site v key P w) :
    Secure (rules site) v (fun _ => Held site v key P) E (ask .unlockStore) w := by
  refine secure_ask Op.unlockStore (fun _ h => h.inv) hw ?_
  intro w choice reply w' hw hreply
  cases hreply
  refine ⟨.unlockStore w hw.locked, ?_⟩
  intro hinv'
  exact ⟨hinv', hw.held, hP.keep w _ (fun _ _ => rfl) (fun _ he => { he with }) hw.holds⟩

theorem secure_currentEntries (hw : Locked site v key P w) :
    Secure (rules site) v (fun r => Read site v key P r.1 r.2) E
    (currentEntries site.limits) w := by
  have hread : ∀ entries : Dict String (Entry Result),
      Stable (rules site) v (fun w => Locked site v key P w ∧ entries = w.file) := by
    refine fun entries => ⟨fun u hne a b ha hinv hmay =>
      ⟨stable_locked.keep u hne a b ha.1 hinv hmay, ?_⟩⟩
    rw [(May.unwritten hmay hne ha.1.locked).2]
    exact ha.2
  apply Secure.seq (Q := fun entries w => Locked site v key P w ∧ entries = w.file)
  · refine secure_ask Op.readStore (fun _ h => h.inv) hw ?_
    intro w choice reply w' hw hreply
    cases hreply
    exact ⟨.idle w, fun _ => ⟨hw, rfl⟩⟩
  intro entries w hw
  apply Secure.seq (Q := fun now =>
    Read site v key P (prune Entry.createdAt site.limits now entries) now)
  · refine secure_ask Op.time (P := fun w => Locked site v key P w ∧ entries = w.file)
      (fun _ h => h.1.inv) hw ?_
    intro w choice reply w' hw hreply
    cases hreply
    refine ⟨.wait w choice.elapsed, ?_⟩
    intro hinv'
    have hlive : ∀ e, Live site.limits key e { w with clock := w.clock + choice.elapsed } →
      Live site.limits key e w :=
      fun e he => ⟨he.filed, (Nat.le_add_right _ _).trans he.retained, he.newer⟩
    exact ⟨⟨⟨hinv', hw.1.held, hP.keep w _ (fun _ _ => rfl) hlive hw.1.holds⟩,
      hw.1.locked⟩, by rw [hw.2], le_rfl⟩
  intro now w hw
  exact Secure.ret hw

omit [∀ e, Stable (rules site) v (E e)] in
theorem secure_withStore {f : Dict String (Entry Result) × Nat → Program Result α}
    [∀ a, Steady site key (Q a)] (hw : Held site v key P w)
    (hf : ∀ entries now w, Read site v key P entries now w →
      Secure (rules site) v (fun a => Locked site v key (Q a))
        (fun e => Locked site v key (Settled site key fingerprint (.error e)))
        (f (entries, now)) w) :
    Serves site v key fingerprint Q (withStore (currentEntries site.limits >>= f)) w := by
  apply Secure.seq (secure_lockStore hw)
  intro _ w hw
  have hbody := Secure.seq (secure_currentEntries hw) (fun r w hw => hf r.1 r.2 w hw)
  apply Secure.ensure hbody
  · intro a w hw
    exact secure_unlockStore hw
  · intro e w hw
    exact secure_unlockStore hw

end Store

section Programs

theorem secure_findResponse (hw : Held site v key (Hushed site key) w) :
    Serves site v key fingerprint (fun found => match found with
        | some response => Settled site key fingerprint (.ok (response, true))
        | none => fun w => Hushed site key w ∧ Clear site.limits key w)
      (findResponse site.limits key fingerprint : Program Result _) w := by
  have hQ : ∀ found : Option Result, Steady site key (match found with
      | some response =>
        (Settled site key fingerprint (.ok (response, true)) : World Slot Result Worker → Prop)
      | none => fun w => Hushed site key w ∧ Clear site.limits key w) := by
    intro found
    cases found with
    | some response => exact steady_settled
    | none => exact Steady.and
  apply secure_withStore hw
  intro entries now w hw
  dsimp only
  split
  next hnone => exact Secure.ret (hw.relock ⟨hw.holds, hw.clear hnone⟩)
  next existing hsome =>
    split
    next hne =>
      refine Secure.raise (hw.relock ⟨hw.holds, ?_⟩)
      intro e he
      rw [hw.found hsome e he]
      exact ⟨fun _ => rfl, fun heq => absurd heq hne⟩
    next heq =>
      split
      next response hresponse =>
        refine Secure.ret (hw.relock ⟨hw.holds, ?_⟩)
        intro e he
        rw [hw.found hsome e he, hresponse]
        refine ⟨fun hne => absurd hne heq, ?_⟩
        rintro - r ⟨⟩
        exact ⟨true, rfl⟩
      next hresponse =>
        refine Secure.raise (hw.relock ⟨hw.holds, ?_⟩)
        intro e he
        rw [hw.found hsome e he, hresponse]
        exact ⟨fun hne => absurd hne heq, by nofun⟩

variable {E : Failure → World Slot Result Worker → Prop}

theorem secure_writeStore {outcome : Outcome Result} {response : Option Result} [Steady site key P]
    [∀ e, Stable (rules site) v (E e)] (hrequested : Requested site ⟨fingerprint, now, response⟩)
    (hrenews : ∀ w, P w → response = none ∧ Renewable site.limits key fingerprint w ∨
      Clear site.limits key w)
    (howed : ∀ w, P w → ∀ bound r, Owing key bound r w → fingerprint = bound ∧ response = some r)
    (hothers : ∀ w, P w → ∀ key', site.slot key' = site.slot key → key' ≠ key → Quiet key' w)
    (hsuits : Suits fingerprint response fingerprint outcome)
    (hw : Read site v key P entries now w) :
    Secure (rules site) v (fun _ => Locked site v key (Settled site key fingerprint outcome)) E
      (ask (.writeStore key (entries.set key ⟨fingerprint, now, response⟩))) w := by
  refine secure_ask (Op.writeStore key (entries.set key ⟨fingerprint, now, response⟩))
    (fun _ h => h.inv) hw ?_
  intro w choice reply w' hw hreply
  cases hreply
  have hmay := May.store w key ⟨fingerprint, now, response⟩ now hw.held hw.locked hw.past hrequested
    (hrenews w hw.holds) (howed w hw.holds)
  rw [← hw.entries] at hmay
  refine ⟨hmay, ?_⟩
  intro hinv'
  refine ⟨⟨hinv', hw.held, ?_, ?_⟩, hw.locked⟩
  · intro key' hslot bound r howing
    by_cases hkey : key' = key
    · subst hkey
      simp [Owing] at howing
    · exact hothers w hw.holds key' hslot hkey bound r (by simpa [Owing, hkey] using howing)
  · intro e he
    have hfiled := he.filed
    rw [Dict.get?_set, if_pos rfl] at hfiled
    cases hfiled
    exact hsuits

theorem secure_storeResponse {result : Result}
    (hrequested : ∀ now, Requested site ⟨fingerprint, now, some result⟩)
    (hw : Held site v key (fun w => Waiting site key fingerprint result w ∧
    Clear site.limits key w) w) :
    Serves site v key fingerprint (fun _ => Settled site key fingerprint (.ok (result, false)))
      (storeResponse site.limits key fingerprint result) w := by
  apply secure_withStore hw
  intro entries now w hw
  refine secure_writeStore (hrequested now) (fun _ hw => .inr hw.2) ?_
    (fun _ hw => hw.1.2) ?_ hw
  · intro w hw bound r howing
    have heq := hw.1.1.symm.trans howing
    cases heq
    exact ⟨rfl, rfl⟩
  · refine ⟨fun hne => absurd rfl hne, ?_⟩
    rintro - r ⟨⟩
    exact ⟨false, rfl⟩

theorem secure_callback [Stable (rules site) v P] [∀ e, Stable (rules site) v (E e)]
    (hinv : ∀ w, P w → Inv site w) (hfail : ∀ e w, P w → E e w) (hw : P w) :
    Secure (rules site) v (fun _ => P) E (ask (.callback none)) w := by
  refine secure_ask (Op.callback none) hinv hw ?_
  intro w choice reply w' hw hreply
  simp only [Site.respond] at hreply
  split at hreply
  · cases hreply
    exact ⟨.idle w, fun _ => hfail _ w hw⟩
  · cases hreply
    exact ⟨.idle w, fun _ => hw⟩

theorem secure_callback_key (hw : Held site v key
    (fun w => Hushed site key w ∧ Clear site.limits key w) w) :
    Serves site v key fingerprint (fun result w => Waiting site key fingerprint result w ∧
      Clear site.limits key w) (ask (.callback (some ⟨key, fingerprint⟩)) :
      Program Result _) w := by
  refine secure_ask (Op.callback (some ⟨key, fingerprint⟩)) (fun _ h => h.inv) hw ?_
    (fun _ hw => hw.holds.2)
  intro w choice reply w' hw hreply
  simp only [Site.respond] at hreply
  split at hreply
  · cases hreply
    exact ⟨.idle w, fun _ => ⟨hw.inv, hw.held, hw.holds.1, hw.holds.2.agrees _⟩⟩
  next result hresult =>
    cases hreply
    refine ⟨.complete w key fingerprint result hw.held hw.holds.1 hw.holds.2, ?_⟩
    intro hinv'
    refine ⟨hinv', hw.held, ⟨by simp [Owing], ?_⟩, fun e he => hw.holds.2 e { he with }⟩
    intro key' hslot hne bound r howing
    exact hw.holds.1 key' hslot bound r (by simpa [Owing, hne] using howing)

section Reconciling

variable {operation : String} {payload : Payload}
  (hfp : fingerprint = site.fingerprint operation payload) (hop : site.reconciling operation = true)

include hfp hop

theorem secure_findBinding (hsite : site.Sound) (hw : Held site v key (Hushed site key) w) :
    Serves site v key fingerprint (fun _ w => Hushed site key w ∧
      Renewable site.limits key fingerprint w) (findBinding site.limits key fingerprint :
      Program Result _) w := by
  apply secure_withStore hw
  intro entries now w hw
  dsimp only
  split
  next hother => exact Secure.raise (hw.relock ⟨hw.holds, hw.refused hother⟩)
  next hsame =>
    exact Secure.ret (hw.relock ⟨hw.holds, hw.renewable hsite hfp hop (Bool.not_eq_true _ ▸ hsame)⟩)

theorem secure_storeBinding (outcome : Outcome Result)
    (hw : Held site v key (fun w => Hushed site key w ∧
      Renewable site.limits key fingerprint w) w) :
    Serves site v key fingerprint (fun _ => Settled site key fingerprint outcome)
      (storeBinding site.limits key fingerprint : Program Result _) w := by
  apply secure_withStore hw
  intro entries now w hw
  dsimp only
  split
  next hother => exact Secure.raise (hw.relock ⟨hw.holds.1, hw.refused hother⟩)
  next hsame =>
    exact secure_writeStore ⟨operation, payload, hfp, hop⟩
      (fun _ hw => .inl ⟨rfl, hw.2⟩)
      (fun _ hw bound r howing => absurd howing (hw.1 key rfl bound r))
      (fun _ hw key' hslot _ => hw.1 key' hslot) ⟨fun hne => absurd rfl hne, by simp⟩ hw

end Reconciling

theorem secure_withRequest {body : Program Result (Result × Bool)} (hinv : Inv site w)
    (hbody : ∀ w, Held site v key (Hushed site key) w →
      Serves site v key fingerprint (fun a => Settled site key fingerprint (.ok a)) body w) :
    Secure (rules site) v (fun _ => Inv site) (fun _ => Inv site)
    (withRequest key fingerprint body) w := by
  apply Secure.seq (secure_lockRequest hinv key)
  intro _ w hw
  apply Secure.seq (hbody w hw).attempt
  intro outcome w hw
  cases outcome with
  | ok a =>
    apply Secure.seq (secure_leaveRequest hw)
    intro _ w hw
    exact Secure.ret hw
  | error e =>
    apply Secure.seq (secure_leaveRequest hw)
    intro _ w hw
    exact Secure.raise hw

variable {operation : String} {payload : Payload}

theorem secure_executeIdempotent (hop : site.idempotent operation = true) (hinv : Inv site w)
    (key : Option String) :
    Secure (rules site) v (fun _ => Inv site) (fun _ => Inv site)
      (executeIdempotent site.limits key (site.fingerprint operation payload) : Program
        Result _) w := by
  simp only [executeIdempotent]
  split
  · apply Secure.seq (secure_callback (fun _ h => h) (fun _ _ h => h) hinv)
    exact fun result w hw => Secure.ret hw
  next key hkey =>
    apply secure_withRequest hinv
    intro w hw
    apply Secure.seq (secure_findResponse hw)
    intro found w hw
    cases found with
    | some response => exact Secure.ret hw
    | none =>
      apply Secure.seq (secure_callback_key hw)
      intro result w hw
      apply Secure.seq (secure_storeResponse (fun now => ⟨operation, payload, rfl, hop⟩) hw)
      intro _ w hw
      exact Secure.ret hw

theorem secure_executeReconcilingIdempotent (hsite : site.Sound)
    (hop : site.reconciling operation = true) (hinv : Inv site w) (key : String) :
    Secure (rules site) v (fun _ => Inv site) (fun _ => Inv site)
      (executeReconcilingIdempotent site.limits key (site.fingerprint operation payload) : Program
        Result _) w := by
  apply secure_withRequest hinv
  intro w hw
  apply Secure.seq (secure_findBinding rfl hop hsite hw)
  intro replayed w hw
  apply Secure.seq (secure_callback (fun _ h => h.inv)
    (fun e w hw => ⟨hw.inv, hw.held, hw.holds.1, hw.holds.2.agrees _⟩) hw)
  intro result w hw
  apply Secure.seq (secure_storeBinding rfl hop (.ok (result, replayed)) hw)
  intro _ w hw
  exact Secure.ret hw

end Programs

theorem rules_suit (hsite : site.Sound) :
    (rules site : Rules (site.machine false : Machine (World Slot Result Worker) Worker _ _ _
      _)).Suit := by
  constructor
  · intro v call w hw
    refine Secure.mono (Q := fun _ => Inv site) (E := fun _ => Inv site) ?_ (fun _ _ _ => trivial)
      (fun _ _ _ => trivial)
    cases call with
    | idempotent key operation payload hop => exact secure_executeIdempotent hop hw key
    | reconciling key operation payload hop =>
      exact secure_executeReconcilingIdempotent hsite hop hw key
  · intro v w hw
    exact ⟨hw, .idle w⟩

section Once

/-- The receipt of a key, if it has one, is within the retention time and has few newer ones. -/
def Fresh (limits : Limits) (key : String) (w : World Slot Result Worker) : Prop :=
  ∀ e ∈ w.file.get? key, w.clock ≤ e.createdAt + limits.retention ∧
    (newer Entry.createdAt w.file key).length < limits.maxEntries

instance (limits : Limits) (key : String) (w : World Slot Result Worker) :
    Decidable (Fresh limits key w) :=
  inferInstanceAs (Decidable (∀ e ∈ w.file.get? key, _))

structure Once (key : String) (a b : World Slot Result Worker)
    (new : List (Event Result)) : Prop where
  log : b.log key = new ++ a.log key
  /-- The receipt is kept, with its fingerprint and its response. -/
  filed : ∀ bound response, Filed key bound response a → Filed key bound response b
  seen : ∀ bound response, Seen key bound response a → Seen key bound response b
  /-- No callback completes while there is a receipt, and every call ends as the receipt says. -/
  answered : ∀ bound response, Seen key bound response a →
    ∀ event ∈ new, Answered bound response event
  /-- After a callback has completed, none completes again, and every call ends as this one did. -/
  completed : ∀ later fingerprint result earlier,
    new = later ++ .completed fingerprint result :: earlier →
    Seen key fingerprint (some result) b ∧ ∀ event ∈ later, Answered fingerprint (some result) event

omit [DecidableEq Slot] in
theorem Once.refl (key : String) (w : World Slot Result Worker) : Once key w w [] :=
  ⟨rfl, fun _ _ h => h, fun _ _ h => h, by nofun, by simp⟩

variable {a b : World Slot Result Worker}

omit [DecidableEq Slot] in
theorem Once.trans {c : World Slot Result Worker} {first second : List (Event Result)}
    (hab : Once key a b first) (hbc : Once key b c second) : Once key a c (second ++ first) := by
  refine ⟨?_, fun _ _ h => hbc.filed _ _ (hab.filed _ _ h),
    fun _ _ h => hbc.seen _ _ (hab.seen _ _ h), ?_, ?_⟩
  · rw [hbc.log, hab.log, List.append_assoc]
  · intro bound response hseen event hevent
    obtain hevent | hevent := List.mem_append.mp hevent
    · exact hbc.answered bound response (hab.seen _ _ hseen) event hevent
    · exact hab.answered bound response hseen event hevent
  intro later fingerprint result earlier hsplit
  have hfirst : ∀ mid, later = second ++ mid →
      first = mid ++ .completed fingerprint result :: earlier →
      Seen key fingerprint (some result) c ∧
      ∀ event ∈ later, Answered fingerprint (some result) event := by
    intro mid hlater hmid
    obtain ⟨hseen, hanswered⟩ := hab.completed mid fingerprint result earlier hmid
    refine ⟨hbc.seen _ _ hseen, ?_⟩
    intro event hevent
    rw [hlater] at hevent
    obtain hevent | hevent := List.mem_append.mp hevent
    · exact hbc.answered _ _ hseen event hevent
    · exact hanswered event hevent
  obtain ⟨mid, hlater, hmid⟩ | ⟨mid, hsecond, hmid⟩ := List.append_eq_append_iff.mp hsplit
  · exact hfirst mid hlater hmid
  cases mid with
  | nil => exact hfirst [] (by simpa using hsecond.symm) (by simpa using hmid.symm)
  | cons event mid =>
    obtain ⟨rfl, rfl⟩ := List.cons.inj hmid
    exact hbc.completed later fingerprint result mid hsecond

theorem Once.step (hfresh : Fresh site.limits key a) (hmay : May site v a b) :
    ∃ new, Once key a b new := by
  have hlive : ∀ {e}, a.file.get? key = some e → Live site.limits key e a :=
    fun he => ⟨he, (hfresh _ he).1, (hfresh _ he).2⟩
  have hseen : ∀ bound response, Seen key bound response a → Seen key bound response b ∧
      ∃ new, b.log key = new ++ a.log key ∧ ∀ event ∈ new, Answered bound response event := by
    intro bound response hseen
    obtain ⟨r, rfl, howing⟩ | ⟨e, he, rfl, rfl⟩ := hseen
    · exact hmay.owing howing
    · obtain ⟨hfiled, hnew⟩ := hmay.live (hlive he)
      exact ⟨.inr hfiled, hnew⟩
  have hfiled : ∀ bound response, Filed key bound response a → Filed key bound response b := by
    rintro bound response ⟨e, he, rfl, rfl⟩
    exact (hmay.live (hlive he)).1
  have hanswered : ∀ new, b.log key = new ++ a.log key →
      ∀ bound response, Seen key bound response a →
      ∀ event ∈ new, Answered bound response event := by
    intro new hlog bound response hs
    obtain ⟨-, new', hlog', hnew⟩ := hseen bound response hs
    rwa [List.append_cancel_right (hlog.symm.trans hlog')]
  obtain hlog | ⟨event, hlog⟩ := hmay.log key
  · exact ⟨[], hlog, hfiled, fun _ _ h => (hseen _ _ h).1, by simp, by simp⟩
  refine ⟨[event], hlog, hfiled, fun _ _ h => (hseen _ _ h).1, hanswered [event] hlog, ?_⟩
  intro later fingerprint result earlier hsplit
  obtain ⟨rfl, hevent⟩ | ⟨rest, -, hrest⟩ := List.cons_eq_append_iff.mp hsplit
  · obtain ⟨rfl, -⟩ := List.cons.inj hevent
    exact ⟨.inl ⟨result, rfl, by simp [Owing, hlog]⟩, by simp⟩
  · simp at hrest

variable [DecidableEq Worker]

theorem once_run (hsite : site.Sound)
    {s : Pool (World Slot Result Worker) Worker (@Answer Result) Failure (Result × Bool)}
    (hs : Kept (rules site) s) {moves : List (Move (site.machine false : Machine _ Worker _ _ _ _))}
    (hfresh : Permitted (site.machine false).next
      (fun s _ => Fresh site.limits key s.world) moves s) :
    ∃ new, Once key s.world (run (site.machine false).next moves s).world new := by
  induction moves generalizing s with
  | nil => exact ⟨[], .refl key s.world⟩
  | cons move moves ih =>
    obtain ⟨hkept, hworld⟩ := next_world (rules_suit hsite) hs move
    obtain ⟨later, hlater⟩ := ih hkept hfresh.2
    obtain heq | ⟨v, hmay⟩ := hworld
    · rw [← heq] at hlater
      exact ⟨later, hlater⟩
    · obtain ⟨first, hfirst⟩ := Once.step hfresh.1 hmay
      exact ⟨later ++ first, hfirst.trans hlater⟩

/-- Where a worker runs the callback of a key, the key has no live receipt; and while the receipt is
young and has few newer ones, what happens to the key is what its one completed callback allows. -/
structure RunOnce (site : Site Payload Slot) (key : String)
    (s t : Pool (World Slot Result Worker) Worker (@Answer Result) Failure
      (Result × Bool)) : Prop where
  running : ∀ v fingerprint next,
    t.threads v = some (.call (.callback (some ⟨key, fingerprint⟩)) next) →
    Clear site.limits key t.world
  once : ∃ new, Once key s.world t.world new

theorem idempotent_requests_run_once (site : Site Payload Slot) (hsite : site.Sound) (key : String)
    (moves more : List (Move (site.machine false : Machine (World Slot Result Worker)
      Worker _ _ _ _)))
    (hfresh : Permitted (site.machine false).next (fun s _ => Fresh site.limits key s.world) more
      (run (site.machine false).next moves (Pool.idle {}))) :
    RunOnce site key (run (site.machine false).next moves (Pool.idle {}))
      (run (site.machine false).next more
        (run (site.machine false).next moves (Pool.idle {}))) := by
  have hs := kept_run (rules_suit hsite) (kept_idle (inv_start site)) moves
  refine ⟨?_, once_run hsite hs hfresh⟩
  intro v fingerprint next hv
  exact (kept_run (rules_suit hsite) hs more).needs hv

section Example

def plainSite (reconciling : Bool) : Site Unit Unit :=
  ⟨⟨24 * 60 * 60, 1000⟩, fun _ => (), fun o _ => o, fun _ => true, fun _ => reconciling⟩

theorem sound_plainSite : (plainSite false).Sound := ⟨fun h => ⟨h, rfl⟩, fun _ _ => rfl⟩

abbrev PlainMove (reconciling faults : Bool) :=
  Move ((plainSite reconciling).machine faults : Machine (World Unit Nat Nat) Nat _ _ _ _)

def callMoves (reconciling faults : Bool) (result : Nat) (readable : Bool) :
    List (PlainMove reconciling faults) :=
  .start 0 (.idempotent (some "k") "create-user" () rfl) ::
    List.replicate 13 (.step 0 ⟨.ok result, 1, readable⟩)

theorem second_call_replayed : (plainSite false).Sound ∧ RunOnce (plainSite false) "k"
    (run ((plainSite false).machine false).next (callMoves false false 1 true) (Pool.idle {}))
    (run ((plainSite false).machine false).next (callMoves false false 2 true)
      (run ((plainSite false).machine false).next (callMoves false false 1 true) (Pool.idle {}))) :=
  ⟨sound_plainSite, idempotent_requests_run_once (plainSite false) sound_plainSite "k"
    (callMoves false false 1 true) (callMoves false false 2 true) (by decide +kernel)⟩

def reconcileMoves (result : Nat) : List (PlainMove true false) :=
  .start 0 (.reconciling "k" "create-user" () rfl) ::
    List.replicate 13 (.step 0 ⟨.ok result, 1, true⟩)

/-- A call that cannot read the file takes the store for empty and runs its callback again. And
where the operation is also reconciled, the receipt loses its response. -/
theorem unreadable_store_runs_again :
    Permitted ((plainSite false).machine true).next
    (fun s _ => Fresh (plainSite false).limits "k" s.world)
      (callMoves false true 1 true ++ callMoves false true 2 false) (Pool.idle {}) ∧
    (run ((plainSite false).machine true).next
      (callMoves false true 1 true ++ callMoves false true 2 false)
        (Pool.idle {})).world.log "k" =
      [.left "create-user" (.ok (2, false)), .stored, .completed "create-user" 2,
        .left "create-user" (.ok (1, false)), .stored, .completed "create-user" 1] ∧
    (run ((plainSite true).machine false).next
        (callMoves true false 1 true ++ reconcileMoves 2 ++ callMoves true false 3 true)
        (Pool.idle {})).world.log "k" =
      [.left "create-user" (.error (.conflict .unreadableResponse)),
        .left "create-user" (.ok (2, true)), .stored, .left "create-user" (.ok (1, false)), .stored,
        .completed "create-user" 1] := by
  decide +kernel

end Example

end Once

end NodeManager.IdempotencyRuns
