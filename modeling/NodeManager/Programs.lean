import NodeManager.Runs

namespace NodeManager.Programs

open Runs

/-- Programs that ask operations of their world; an operation answers or fails. -/
inductive Prog {Op : Type} (Answer : Op → Type) (ε α : Type)
  | ret (a : α)
  | raise (e : ε)
  | call (op : Op) (next : Except ε (Answer op) → Prog Answer ε α)

variable {Op W : Type} {Answer : Op → Type} {ε α β ι : Type}

namespace Prog

def bind : Prog Answer ε α → (α → Prog Answer ε β) → Prog Answer ε β
  | ret a, f => f a
  | raise e, _ => raise e
  | call op next, f => call op (fun reply => (next reply).bind f)

def handle : Prog Answer ε α → (ε → Prog Answer ε α) → Prog Answer ε α
  | ret a, _ => ret a
  | raise e, handler => handler e
  | call op next, handler => call op (fun reply => (next reply).handle handler)

def ofExcept : Except ε α → Prog Answer ε α
  | .ok a => ret a
  | .error e => raise e

def ask (op : Op) : Prog Answer ε (Answer op) := call op ofExcept

def forEach (f : ι → Prog Answer ε Unit) : List ι → Prog Answer ε Unit
  | [] => ret ()
  | x :: xs => (f x).bind (fun _ => forEach f xs)

def attempt (p : Prog Answer ε α) : Prog Answer ε (Except ε α) :=
  (p.bind (fun a => ret (.ok a))).handle (fun e => ret (.error e))

def ensure (p : Prog Answer ε α) (final : Prog Answer ε Unit) : Prog Answer ε α :=
  (p.handle (fun e => final.bind (fun _ => raise e))).bind (fun a => final.bind (fun _ => ret a))

def when (condition : Prop) [Decidable condition] (p : Prog Answer ε Unit) : Prog Answer ε Unit :=
  if condition then p else ret ()

def error? : Prog Answer ε α → Option ε
  | raise e => some e
  | _ => none

instance : Monad (Prog Answer ε) where
  pure := ret
  bind := bind

def eval (respond : (op : Op) → W → Except ε (Answer op) × W) : Prog Answer ε α → W → Except ε α × W
  | ret a, w => (.ok a, w)
  | raise e, w => (.error e, w)
  | call op next, w => (next (respond op w).1).eval respond (respond op w).2

section Eval

variable {respond : (op : Op) → W → Except ε (Answer op) × W} {p : Prog Answer ε α} {w v : W}
  {a : α} {e : ε} {f : α → Prog Answer ε β}

theorem eval_ask (op : Op) (w : W) : (ask op).eval respond w = respond op w := by
  unfold ask
  rw [eval]
  obtain ⟨reply, v⟩ := respond op w
  cases reply with
  | ok a => rfl
  | error e => rfl

theorem eval_bind (p : Prog Answer ε α) (f : α → Prog Answer ε β) (w : W) :
    (p.bind f).eval respond w =
      match p.eval respond w with
      | (.ok a, v) => (f a).eval respond v
      | (.error e, v) => (.error e, v) := by
  induction p generalizing w with
  | ret a => rfl
  | raise e => rfl
  | call op next ih => exact ih _ _

theorem eval_bind_ok (hp : p.eval respond w = (.ok a, v)) :
    (p.bind f).eval respond w = (f a).eval respond v := by
  rw [eval_bind, hp]

theorem eval_seq_ok (hp : p.eval respond w = (.ok a, v)) :
    (p >>= f).eval respond w = (f a).eval respond v := eval_bind_ok hp

theorem eval_seq_error (hp : p.eval respond w = (.error e, v)) :
    (p >>= f).eval respond w = (.error e, v) := (eval_bind p f w).trans (by rw [hp])

theorem eval_handle (p : Prog Answer ε α) (handler : ε → Prog Answer ε α) (w : W) :
    (p.handle handler).eval respond w =
      match p.eval respond w with
      | (.ok a, v) => (.ok a, v)
      | (.error e, v) => (handler e).eval respond v := by
  induction p generalizing w with
  | ret a => rfl
  | raise e => rfl
  | call op next ih => exact ih _ _

theorem eval_attempt (p : Prog Answer ε α) (w : W) :
    p.attempt.eval respond w = (.ok (p.eval respond w).1, (p.eval respond w).2) := by
  rw [attempt, eval_handle, eval_bind]
  obtain ⟨reply, v⟩ := p.eval respond w
  cases reply with
  | ok a => rfl
  | error e => rfl

theorem eval_ensure {final : Prog Answer ε Unit}
    (hfinal : ∀ w, final.eval respond w = (.ok (), w)) (w : W) :
    (p.ensure final).eval respond w = p.eval respond w := by
  rw [ensure, eval_bind, eval_handle]
  obtain ⟨reply, v⟩ := p.eval respond w
  cases reply with
  | ok a => exact (eval_bind_ok (hfinal v)).trans rfl
  | error e =>
    have hraise : (final.bind fun _ => raise e : Prog Answer ε α).eval respond v = (.error e, v) :=
      (eval_bind_ok (hfinal v)).trans rfl
    simp only [hraise]

theorem eval_when {condition : Prop} [Decidable condition] {p : Prog Answer ε Unit} (w : W) :
    (when condition p).eval respond w = if condition then p.eval respond w else (.ok (), w) := by
  unfold when
  split <;> rfl

end Eval

end Prog

/-- How the world answers, and what happens in it between two operations of the program. -/
structure System (W : Type) {Op : Type} (Answer : Op → Type) (ε : Type) where
  Choice : Type
  Event : Type
  respond : Choice → (op : Op) → W → Except ε (Answer op) × W
  env : Event → W → W

inductive Action (S : System W Answer ε)
  | call (choice : S.Choice)
  | env (event : S.Event)

variable {S : System W Answer ε}

def calls (choices : List S.Choice) : List (Action S) := choices.map .call

def advance (S : System W Answer ε) : Action S → Prog Answer ε α × W → Prog Answer ε α × W
  | .env event, (p, w) => (p, S.env event w)
  | .call choice, (.call op next, w) => (next (S.respond choice op w).1, (S.respond choice op w).2)
  | .call _, (.ret a, w) => (.ret a, w)
  | .call _, (.raise e, w) => (.raise e, w)

/-- The world after a session: the program is stopped, wherever it is, when its schedule ends. -/
def session (S : System W Answer ε) (s : Prog Answer ε α × List (Action S)) (w : W) : W :=
  (run (advance S) s.2 (s.1, w)).2

/-- However it is scheduled and wherever it is stopped, the program leaves a world in `C`; a result
is in `Q` with its world, an error in `E`. -/
def Safe (S : System W Answer ε) (C : W → Prop) (Q : α → W → Prop) (E : ε → W → Prop)
    (p : Prog Answer ε α) (w : W) : Prop :=
  ∀ actions, C (run (advance S) actions (p, w)).2 ∧
    (∀ a, (run (advance S) actions (p, w)).1 = .ret a → Q a (run (advance S) actions (p, w)).2) ∧
    ∀ e, (run (advance S) actions (p, w)).1 = .raise e → E e (run (advance S) actions (p, w)).2

abbrev Maintains (S : System W Answer ε) (C : W → Prop) (p : Prog Answer ε α) (w : W) : Prop :=
  Safe S C (fun _ => C) (fun _ => C) p w

/-- The environment keeps the assertion, and the assertion is one a crash may leave behind. -/
class Durable (S : System W Answer ε) (C P : W → Prop) : Prop where
  stable : ∀ event w, P w → P (S.env event w)
  crash : ∀ w, P w → C w

variable {C C' P : W → Prop} {Q Q' : α → W → Prop} {E E' : ε → W → Prop}
  {p : Prog Answer ε α} {w : W} {f : α → Prog Answer ε β} {R : β → W → Prop} {F : ε → W → Prop}

theorem Safe.advance (hp : Safe S C Q E p w) (action : Action S) :
    Safe S C Q E (Programs.advance S action (p, w)).1 (Programs.advance S action (p, w)).2 :=
  fun actions => hp (action :: actions)

theorem Safe.mono (hp : Safe S C Q E p w) (hC : ∀ w, C w → C' w) (hQ : ∀ a w, Q a w → Q' a w)
    (hE : ∀ e w, E e w → E' e w) : Safe S C' Q' E' p w := by
  intro actions
  obtain ⟨hc, hq, he⟩ := hp actions
  exact ⟨hC _ hc, fun a ha => hQ a _ (hq a ha), fun e heq => hE e _ (he e heq)⟩

theorem Safe.ret {a : α} [hd : Durable S C (Q a)] (hw : Q a w) : Safe S C Q E (.ret a) w := by
  intro actions
  induction actions generalizing w with
  | nil =>
    refine ⟨hd.crash w hw, ?_, nofun⟩
    rintro b ⟨⟩
    exact hw
  | cons action actions ih =>
    cases action with
    | env event => exact ih (hd.stable event w hw)
    | call choice => exact ih hw

theorem Safe.raise {e : ε} [hd : Durable S C (E e)] (hw : E e w) : Safe S C Q E (.raise e) w := by
  intro actions
  induction actions generalizing w with
  | nil =>
    refine ⟨hd.crash w hw, nofun, ?_⟩
    rintro e ⟨⟩
    exact hw
  | cons action actions ih =>
    cases action with
    | env event => exact ih (hd.stable event w hw)
    | call choice => exact ih hw

theorem Safe.call {op : Op} {next : Except ε (Answer op) → Prog Answer ε α}
    [hd : Durable S C P] (hw : P w)
    (hnext : ∀ choice w, P w → Safe S C Q E (next (S.respond choice op w).1)
    (S.respond choice op w).2) :
    Safe S C Q E (.call op next) w := by
  intro actions
  induction actions generalizing w with
  | nil => exact ⟨hd.crash w hw, nofun, nofun⟩
  | cons action actions ih =>
    cases action with
    | env event => exact ih (hd.stable event w hw)
    | call choice => exact hnext choice w hw actions

section Ask

variable (op : Op) {Q : Answer op → W → Prop} [Durable S C P] [∀ a, Durable S C (Q a)]
  [∀ e, Durable S C (E e)]

theorem Safe.ask (hw : P w)
    (hok : ∀ choice w a, P w → (S.respond choice op w).1 = .ok a → Q a (S.respond choice op w).2)
    (herr : ∀ choice w e, P w → (S.respond choice op w).1 = .error e →
      E e (S.respond choice op w).2) :
    Safe S C Q E (Prog.ask op) w := by
  apply Safe.call hw
  intro choice w hw
  cases hr : (S.respond choice op w).1 with
  | ok a => exact Safe.ret (hok choice w a hw hr)
  | error e => exact Safe.raise (herr choice w e hw hr)

def Replies (Q : α → W → Prop) (E : ε → W → Prop) : Except ε α × W → Prop
  | (.ok a, w) => Q a w
  | (.error e, w) => E e w

theorem Safe.ask_replies (hw : P w)
    (hreply : ∀ choice w, P w → Replies Q E (S.respond choice op w)) :
    Safe S C Q E (Prog.ask op) w := by
  apply Safe.ask op hw
  · intro choice w a hw ha
    have h := hreply choice w hw
    rwa [← Prod.eta (S.respond choice op w), ha] at h
  · intro choice w e hw he
    have h := hreply choice w hw
    rwa [← Prod.eta (S.respond choice op w), he] at h

theorem Safe.ask_reading (hpure : ∀ choice w, (S.respond choice op w).2 = w) (hw : P w)
    (hfail : ∀ e w, P w → E e w) (hok : ∀ choice w a, P w → (S.respond choice op w).1 = .ok a →
      Q a w) : Safe S C Q E (Prog.ask op) w := by
  apply Safe.ask op hw
  · intro choice w a hw ha
    rw [hpure]
    exact hok choice w a hw ha
  · intro choice w e hw _
    rw [hpure]
    exact hfail e w hw

end Ask

theorem Safe.ask_leaving (op : Op) {Q : W → Prop} [Durable S C P] [Durable S C Q] (hw : P w)
    (hleft : ∀ choice w, P w → Q (S.respond choice op w).2) :
    Safe S C (fun _ => Q) (fun _ => Q) (Prog.ask op) w :=
  Safe.ask op hw (fun choice w _ hw _ => hleft choice w hw)
    (fun choice w _ hw _ => hleft choice w hw)

theorem Safe.ask_writing (op : Op)
    {Q : W → Prop} [Durable S C P] [Durable S C Q] [∀ e, Durable S C (E e)] (hw : P w)
    (hundone : ∀ e w, P w → E e w) (hdone : ∀ e w, Q w → E e w)
    (heffect : ∀ choice w, P w → Q (S.respond choice op w).2 ∨
      (S.respond choice op w).2 = w ∧ ∃ e, (S.respond choice op w).1 = .error e) :
    Safe S C (fun _ => Q) E (Prog.ask op) w := by
  apply Safe.ask op hw
  · intro choice w a hw ha
    obtain hq | ⟨-, e, he⟩ := heffect choice w hw
    · exact hq
    · cases ha.symm.trans he
  intro choice w e hw _
  obtain hq | ⟨heq, -⟩ := heffect choice w hw
  · exact hdone e _ hq
  · rw [heq]
    exact hundone e w hw

instance Safe.durable : Durable S C (Safe S C Q E p) :=
  ⟨fun event _ hp => hp.advance (.env event), fun _ hp => (hp []).1⟩

theorem Safe.raised {R : β → W → Prop} {e : ε} (hp : Safe S C Q E (.raise e) w) :
    Safe S C R E (.raise e) w :=
  (Safe.raise (E := fun e => Safe S C Q E (.raise e)) hp).mono (fun _ h => h) (fun _ _ h => h)
    (fun e _ h => (h []).2.2 e rfl)

theorem Safe.returned {a : α} (hp : Safe S C Q E' (.ret a) w) : Safe S C Q E (.ret a) w :=
  (Safe.ret (Q := fun a => Safe S C Q E' (.ret a)) hp).mono (fun _ h => h)
    (fun a _ h => (h []).2.1 a rfl) (fun _ _ h => h)

theorem Safe.bind (hp : Safe S C Q E p w) (hf : ∀ a w, Q a w → Safe S C R E (f a) w) :
    Safe S C R E (p.bind f) w := by
  induction p generalizing w with
  | ret a => exact hf a w ((hp []).2.1 a rfl)
  | raise e => exact hp.raised
  | call op next ih => exact Safe.call hp (fun choice _ hp => ih _ (hp.advance (.call choice)))

theorem Safe.handle {handler : ε → Prog Answer ε α} (hp : Safe S C Q E' p w)
    (hh : ∀ e w, E' e w → Safe S C Q E (handler e) w) : Safe S C Q E (p.handle handler) w := by
  induction p generalizing w with
  | ret a => exact hp.returned
  | raise e => exact hh e w ((hp []).2.2 e rfl)
  | call op next ih => exact Safe.call hp (fun choice _ hp => ih _ (hp.advance (.call choice)))

theorem Safe.forEach {f : ι → Prog Answer ε Unit} {I : List ι → W → Prop} [Durable S C (I [])]
    {xs : List ι} (hw : I xs w)
    (hf : ∀ x rest w, (x :: rest).IsSuffix xs → I (x :: rest) w →
      Safe S C (fun _ => I rest) E (f x) w) :
    Safe S C (fun _ => I []) E (Prog.forEach f xs) w := by
  induction xs generalizing w with
  | nil => exact Safe.ret hw
  | cons x xs ih =>
    apply Safe.bind (hf x xs w (List.suffix_refl _) hw)
    intro _ w hw
    exact ih hw (fun y rest w hs => hf y rest w (hs.trans (List.suffix_cons x xs)))

theorem Safe.seq (hp : Safe S C Q E p w) (hf : ∀ a w, Q a w → Safe S C R E (f a) w) :
    Safe S C R E (p >>= f) w := Safe.bind hp hf

theorem Safe.seq_pure {f : α → β} [Durable S C P] (hp : Safe S C (fun _ => P) E p w) :
    Safe S C (fun _ => P) E (p >>= fun a => pure (f a)) w :=
  Safe.seq hp (fun _ _ hw => Safe.ret hw)

theorem Durable.and (hd : Durable S C P) {R : W → Prop} (hr : ∀ event w, R w → R (S.env event w)) :
    Durable S C (fun w => P w ∧ R w) :=
  ⟨fun event w hw => ⟨hd.stable event w hw.1, hr event w hw.2⟩, fun w hw => hd.crash w hw.1⟩

instance Durable.and_pure [hd : Durable S C P] (φ : Prop) : Durable S C (fun w => P w ∧ φ) :=
  hd.and (fun _ _ hφ => hφ)

instance Durable.pure_and [hd : Durable S C P] (φ : Prop) : Durable S C (fun w => φ ∧ P w) :=
  ⟨fun event w hw => ⟨hw.1, hd.stable event w hw.2⟩, fun w hw => hd.crash w hw.2⟩

instance Durable.or {R : W → Prop} [hd : Durable S C P] [hr : Durable S C R] :
    Durable S C (fun w => P w ∨ R w) :=
  ⟨fun event w hw => hw.imp (hd.stable event w) (hr.stable event w),
    fun w hw => hw.elim (hd.crash w) (hr.crash w)⟩

theorem Safe.and {R : α → W → Prop} (hp : Safe S C Q E p w) (hr : Safe S C' R F p w) :
    Safe S (fun w => C w ∧ C' w) (fun a w => Q a w ∧ R a w) (fun e w => E e w ∧ F e w) p w := by
  intro actions
  obtain ⟨hc, hq, he⟩ := hp actions
  obtain ⟨hc', hr, hf⟩ := hr actions
  exact ⟨⟨hc, hc'⟩, fun a ha => ⟨hq a ha, hr a ha⟩, fun e h => ⟨he e h, hf e h⟩⟩

theorem Safe.of_closed (hrespond : ∀ choice op w, P w → P (S.respond choice op w).2)
    (henv : ∀ event w, P w → P (S.env event w)) (p : Prog Answer ε α) (hw : P w) :
    Maintains S P p w := by
  have hd : Durable S P P := ⟨henv, fun _ h => h⟩
  induction p generalizing w with
  | ret a => exact Safe.ret hw
  | raise e => exact Safe.raise hw
  | call op next ih => exact Safe.call hw (fun choice w hw => ih _ (hrespond choice op w hw))

/-- What holds in one system holds in every system that refines it: answers and effects are those
under the projection, and what happens in between can happen there too. -/
theorem Safe.lift {V : Type} {T : System V Answer ε} (π : V → W) (f : T.Choice → S.Choice)
    (hrespond : ∀ choice op v, (T.respond choice op v).1 = (S.respond (f choice) op (π v)).1 ∧
      π (T.respond choice op v).2 = (S.respond (f choice) op (π v)).2)
    (henv : ∀ event v, ∃ event', π (T.env event v) = S.env event' (π v)) {v : V}
    (hp : Safe S C Q E p (π v)) :
    Safe T (fun v => C (π v)) (fun a v => Q a (π v)) (fun e v => E e (π v)) p v := by
  intro actions
  induction actions generalizing p v with
  | nil => exact hp []
  | cons action actions ih =>
    cases action with
    | env event =>
      obtain ⟨event', heq⟩ := henv event v
      refine @ih p (T.env event v) ?_
      rw [heq]
      exact hp.advance (.env event')
    | call choice =>
      cases p with
      | ret a => exact @ih (.ret a) v hp
      | raise e => exact @ih (.raise e) v hp
      | call op next =>
        obtain ⟨hanswer, hworld⟩ := hrespond choice op v
        refine @ih (next (T.respond choice op v).1) (T.respond choice op v).2 ?_
        rw [hanswer, hworld]
        exact hp.advance (.call (f choice))

theorem Safe.attempt [∀ a, Durable S C (Q a)] [∀ e, Durable S C (E e)] (hp : Safe S C Q E p w) :
    Safe S C (fun r w => match r with | .ok a => Q a w | .error e => E e w) E' p.attempt w := by
  have hbind : Safe S C
      (fun (r : Except ε α) w => match r with | .ok a => Q a w | .error e => E e w) E
      (p.bind (fun a => .ret (.ok a))) w := Safe.bind hp (fun a w hw => .ret hw)
  exact Safe.handle hbind (fun e w hw => Safe.ret hw)

theorem Safe.ensure {final : Prog Answer ε Unit}
    {R : α → W → Prop} [∀ a, Durable S C (R a)] [∀ e, Durable S C (F e)] (hp : Safe S C Q E p w)
    (hq : ∀ a w, Q a w → Safe S C (fun _ => R a) F final w)
    (he : ∀ e w, E e w → Safe S C (fun _ => F e) F final w) :
    Safe S C R F (p.ensure final) w := by
  apply Safe.bind (Q := Q)
  · apply Safe.handle hp
    intro e w hw
    apply Safe.bind (he e w hw)
    intro _ w hw
    exact Safe.raise hw
  · intro a w hw
    apply Safe.bind (hq a w hw)
    intro _ w hw
    exact Safe.ret hw

theorem Safe.when {condition : Prop} [Decidable condition] {p : Prog Answer ε Unit} {Q : W → Prop}
    [Durable S C Q] (hp : condition → Safe S C (fun _ => Q) E p w) (hskip : ¬condition → Q w) :
    Safe S C (fun _ => Q) E (Prog.when condition p) w := by
  unfold Prog.when
  split
  next h => exact hp h
  next h => exact Safe.ret (hskip h)

/-- What every program of a history keeps, wherever it is stopped, holds in every world it
reaches. -/
theorem session_invariant {I : W → Prop} {sessions : List (Prog Answer ε α × List (Action S))}
    (hsafe : ∀ s ∈ sessions, ∀ w, I w → Safe S I (fun _ => I) (fun _ => I) s.1 w) (hw : I w) :
    I (run (session S) sessions w) := by
  induction sessions generalizing w with
  | nil => exact hw
  | cons s sessions ih =>
    have hs : I (session S s w) := (hsafe s List.mem_cons_self w hw s.2).1
    exact ih (fun t ht => hsafe t (List.mem_cons_of_mem s ht)) hs

end NodeManager.Programs
