import Mathlib.Logic.Relation
import NodeManager.Programs

namespace NodeManager.Threads

open Programs Relation Runs

variable {W Worker Op Call : Type} {Answer : Op → Type} {ε ρ α β : Type}

/-- Workers that run programs against one world. An operation that has to wait is answered with
`none`; `leave` is what a stopped worker does to the world. -/
structure Machine (W Worker Call : Type) {Op : Type} (Answer : Op → Type) (ε ρ : Type) where
  Choice : Type
  code : Call → Prog Answer ε ρ
  respond : Worker → Choice → (op : Op) → W → Option (Except ε (Answer op) × W)
  leave : Worker → W → W

structure Pool (W Worker : Type) {Op : Type} (Answer : Op → Type) (ε ρ : Type) where
  threads : Worker → Option (Prog Answer ε ρ)
  world : W

inductive Move (M : Machine W Worker Call Answer ε ρ)
  | start (worker : Worker) (call : Call)
  | step (worker : Worker) (choice : M.Choice)
  | stop (worker : Worker)

variable {M : Machine W Worker Call Answer ε ρ}

def Machine.next [DecidableEq Worker] (M : Machine W Worker Call Answer ε ρ) :
    Move M → Pool W Worker Answer ε ρ → Pool W Worker Answer ε ρ
  | .start worker call, s =>
    match s.threads worker with
    | none => { s with threads := Function.update s.threads worker (some (M.code call)) }
    | some _ => s
  | .step worker choice, s =>
    match s.threads worker with
    | none => s
    | some (.call op next) =>
      match M.respond worker choice op s.world with
      | none => s
      | some (reply, w) => ⟨Function.update s.threads worker (some (next reply)), w⟩
    | some _ => { s with threads := Function.update s.threads worker none }
  | .stop worker, s => ⟨Function.update s.threads worker none, M.leave worker s.world⟩

def Pool.idle (w : W) : Pool W Worker Answer ε ρ := ⟨fun _ => none, w⟩

/-- What is kept, what each worker may do to the world, and where it may be at an operation. -/
structure Rules (M : Machine W Worker Call Answer ε ρ) where
  Inv : W → Prop
  May : Worker → W → W → Prop
  Needs : Worker → Op → W → Prop

variable {R : Rules M} {v : Worker} {P : W → Prop} {Q Q' : α → W → Prop} {E E' : ε → W → Prop}
  {p : Prog Answer ε α} {w w' : W} {f : α → Prog Answer ε β}

def Interferes (R : Rules M) (v : Worker) : W → W → Prop :=
  ReflTransGen (fun a b => R.Inv b ∧ ∃ u, u ≠ v ∧ R.May u a b)

class Stable (R : Rules M) (v : Worker) (P : W → Prop) : Prop where
  keep : ∀ u, u ≠ v → ∀ a b, P a → R.Inv b → R.May u a b → P b

theorem Stable.interferes [hP : Stable R v P] (hw : P w) (h : Interferes R v w w') : P w' := by
  induction h with
  | refl => exact hw
  | tail _ hstep ih =>
    obtain ⟨hinv, u, hne, hmay⟩ := hstep
    exact hP.keep u hne _ _ ih hinv hmay

instance Stable.and {P' : W → Prop} [hP : Stable R v P] [hP' : Stable R v P'] :
    Stable R v (fun w => P w ∧ P' w) :=
  ⟨fun u hne a b h hinv hmay => ⟨hP.keep u hne a b h.1 hinv hmay, hP'.keep u hne a b h.2 hinv hmay⟩⟩

instance Stable.imp (φ : Prop) [hP : Stable R v P] : Stable R v (fun w => φ → P w) :=
  ⟨fun u hne a b h hinv hmay hφ => hP.keep u hne a b (h hφ) hinv hmay⟩

theorem Stable.inv : Stable R v R.Inv := ⟨fun _ _ _ _ _ hinv _ => hinv⟩

/-- Whatever others do in between, each operation keeps the rules, and the program ends in `Q` or
fails in `E`. -/
def Secure (R : Rules M) (v : Worker) (Q : α → W → Prop) (E : ε → W → Prop) :
    Prog Answer ε α → W → Prop
  | .ret a, w => ∀ w', Interferes R v w w' → Q a w'
  | .raise e, w => ∀ w', Interferes R v w w' → E e w'
  | .call op next, w => ∀ w', Interferes R v w w' → R.Needs v op w' ∧
      ∀ choice reply w'', M.respond v choice op w' = some (reply, w'') →
        R.Inv w'' ∧ R.May v w' w'' ∧ Secure R v Q E (next reply) w''

theorem Secure.interferes (hp : Secure R v Q E p w) (h : Interferes R v w w') :
    Secure R v Q E p w' := by
  cases p with
  | ret a => exact fun w'' h' => hp w'' (h.trans h')
  | raise e => exact fun w'' h' => hp w'' (h.trans h')
  | call op next => exact fun w'' h' => hp w'' (h.trans h')

theorem Secure.step {op : Op} {next next'} {Q' : β → W → Prop}
    (hp : Secure R v Q E (.call op next) w)
    (hnext : ∀ reply w, Secure R v Q E (next reply) w → Secure R v Q' E' (next' reply) w) :
    Secure R v Q' E' (.call op next') w := by
  intro w' h
  obtain ⟨hneeds, hreplies⟩ := hp w' h
  refine ⟨hneeds, ?_⟩
  intro choice reply w'' hreply
  obtain ⟨hinv, hmay, hrest⟩ := hreplies choice reply w'' hreply
  exact ⟨hinv, hmay, hnext reply w'' hrest⟩

theorem Secure.mono (hp : Secure R v Q E p w) (hQ : ∀ a w, Q a w → Q' a w)
    (hE : ∀ e w, E e w → E' e w) :
    Secure R v Q' E' p w := by
  induction p generalizing w with
  | ret a => exact fun w' h => hQ a w' (hp w' h)
  | raise e => exact fun w' h => hE e w' (hp w' h)
  | call op next ih => exact hp.step (fun reply _ => ih reply)

theorem Secure.ret {a : α} [Stable R v (Q a)] (hw : Q a w) : Secure R v Q E (.ret a) w :=
  fun _ h => Stable.interferes hw h

theorem Secure.raise {e : ε} [Stable R v (E e)] (hw : E e w) : Secure R v Q E (.raise e) w :=
  fun _ h => Stable.interferes hw h

theorem Secure.ask (op : Op) {Q : Answer op → W → Prop} [Stable R v P] [∀ a, Stable R v (Q a)]
    [∀ e, Stable R v (E e)] (hw : P w)
    (hstep : ∀ w, P w → R.Needs v op w ∧
      ∀ choice reply w', M.respond v choice op w = some (reply, w') →
      R.Inv w' ∧ R.May v w w' ∧ Replies Q E (reply, w')) :
    Secure R v Q E (Prog.ask op) w := by
  intro w' h
  obtain ⟨hneeds, hnext⟩ := hstep w' (Stable.interferes hw h)
  refine ⟨hneeds, ?_⟩
  intro choice reply w'' hreply
  obtain ⟨hinv, hmay, hend⟩ := hnext choice reply w'' hreply
  refine ⟨hinv, hmay, ?_⟩
  cases reply with
  | ok a => exact Secure.ret hend
  | error e => exact Secure.raise hend

theorem Secure.bind {Q' : β → W → Prop} (hp : Secure R v Q E p w)
    (hf : ∀ a w, Q a w → Secure R v Q' E (f a) w) :
    Secure R v Q' E (p.bind f) w := by
  induction p generalizing w with
  | ret a => exact hf a w (hp w .refl)
  | raise e => exact hp
  | call op next ih => exact hp.step (fun reply _ => ih reply)

theorem Secure.seq {Q' : β → W → Prop} (hp : Secure R v Q E p w)
    (hf : ∀ a w, Q a w → Secure R v Q' E (f a) w) :
    Secure R v Q' E (p >>= f) w := Secure.bind hp hf

theorem Secure.handle {handler : ε → Prog Answer ε α} (hp : Secure R v Q E' p w)
    (hh : ∀ e w, E' e w → Secure R v Q E (handler e) w) : Secure R v Q E (p.handle handler) w := by
  induction p generalizing w with
  | ret a => exact hp
  | raise e => exact hh e w (hp w .refl)
  | call op next ih => exact hp.step (fun reply _ => ih reply)

theorem Secure.attempt [∀ a, Stable R v (Q a)] [∀ e, Stable R v (E e)] (hp : Secure R v Q E p w) :
    Secure R v (fun r w => match r with | .ok a => Q a w | .error e => E e w) E' p.attempt w := by
  have hbind : Secure R v
      (fun (r : Except ε α) w => match r with | .ok a => Q a w | .error e => E e w) E
      (p.bind (fun a => .ret (.ok a))) w :=
      Secure.bind hp (fun a w hw w' => Stable.interferes (P := Q a) hw)
  exact Secure.handle hbind (fun e w hw w' => Stable.interferes (P := E e) hw)

theorem Secure.ensure {final : Prog Answer ε Unit} {F : α → W → Prop} {G : ε → W → Prop}
    [∀ a, Stable R v (F a)] [∀ e, Stable R v (G e)] (hp : Secure R v Q E p w)
    (hq : ∀ a w, Q a w → Secure R v (fun _ => F a) G final w)
    (he : ∀ e w, E e w → Secure R v (fun _ => G e) G final w) :
    Secure R v F G (p.ensure final) w := by
  apply Secure.bind (Q := Q)
  · apply Secure.handle hp
    intro e w hw
    apply Secure.bind (he e w hw)
    intro _ w hw
    exact Secure.raise hw
  · intro a w hw
    apply Secure.bind (hq a w hw)
    intro _ w hw
    exact Secure.ret hw

structure Rules.Suit (R : Rules M) : Prop where
  code : ∀ v call w, R.Inv w → Secure R v (fun _ _ => True) (fun _ _ => True) (M.code call) w
  leave : ∀ v w, R.Inv w → R.Inv (M.leave v w) ∧ R.May v w (M.leave v w)

/-- The invariant holds and all that is still to be done keeps the rules. -/
structure Kept (R : Rules M) (s : Pool W Worker Answer ε ρ) : Prop where
  inv : R.Inv s.world
  threads : ∀ v p, s.threads v = some p → Secure R v (fun _ _ => True) (fun _ _ => True) p s.world

theorem Kept.needs {s : Pool W Worker Answer ε ρ} (hs : Kept R s) {op : Op}
    {next : Except ε (Answer op) → Prog Answer ε ρ} (hv : s.threads v = some (.call op next)) :
    R.Needs v op s.world :=
  (hs.threads v _ hv s.world .refl).1

theorem kept_idle (hw : R.Inv w) : Kept R (Pool.idle w : Pool W Worker Answer ε ρ) :=
  ⟨hw, by nofun⟩

section Runs

variable [DecidableEq Worker] {s : Pool W Worker Answer ε ρ}

theorem Kept.update (hs : Kept R s) {thread : Option (Prog Answer ε ρ)} (hinv : R.Inv w)
    (hmay : s.world = w ∨ R.May v s.world w)
    (hthread : ∀ p, thread = some p → Secure R v (fun _ _ => True) (fun _ _ => True) p w) :
    Kept R ⟨Function.update s.threads v thread, w⟩ := by
  refine ⟨hinv, ?_⟩
  intro u p hu
  by_cases hne : u = v
  · subst hne
    simp only [Function.update_self] at hu
    exact hthread p hu
  simp only [Function.update_of_ne hne] at hu
  have hsecure := hs.threads u p hu
  obtain rfl | hmay := hmay
  · exact hsecure
  · exact hsecure.interferes (.single ⟨hinv, v, Ne.symm hne, hmay⟩)

theorem next_world (hsuit : R.Suit) (hs : Kept R s) (move : Move M) :
    Kept R (M.next move s) ∧ (s.world = (M.next move s).world ∨
      ∃ v, R.May v s.world (M.next move s).world) := by
  cases move with
  | start v call =>
    simp only [Machine.next]
    split
    · refine ⟨hs.update hs.inv (.inl rfl) ?_, .inl rfl⟩
      rintro p ⟨⟩
      exact hsuit.code v call s.world hs.inv
    · exact ⟨hs, .inl rfl⟩
  | step v choice =>
    simp only [Machine.next]
    split
    · exact ⟨hs, .inl rfl⟩
    next op next hv =>
      split
      · exact ⟨hs, .inl rfl⟩
      next reply w hreply =>
        obtain ⟨hinv, hmay, hnext⟩ := (hs.threads v _ hv s.world .refl).2 choice reply w hreply
        refine ⟨hs.update hinv (.inr hmay) ?_, .inr ⟨v, hmay⟩⟩
        rintro p ⟨⟩
        exact hnext
    · exact ⟨hs.update hs.inv (.inl rfl) (by nofun), .inl rfl⟩
  | stop v =>
    obtain ⟨hinv, hmay⟩ := hsuit.leave v s.world hs.inv
    exact ⟨hs.update hinv (.inr hmay) (by nofun), .inr ⟨v, hmay⟩⟩

theorem kept_run (hsuit : R.Suit) (hs : Kept R s) (moves : List (Move M)) :
    Kept R (run M.next moves s) := by
  induction moves generalizing s with
  | nil => exact hs
  | cons move moves ih => exact ih (next_world hsuit hs move).1

theorem run_relates (hsuit : R.Suit) (hs : Kept R s) {r : W → W → Prop} (hrefl : ∀ w, r w w)
    (htrans : ∀ a b c, r a b → r b c → r a c)
    (hmay : ∀ v a b, R.Inv a → R.Inv b → R.May v a b → r a b) (moves : List (Move M)) :
    r s.world (run M.next moves s).world := by
  induction moves generalizing s with
  | nil => exact hrefl s.world
  | cons move moves ih =>
    obtain ⟨hkept, hworld⟩ := next_world hsuit hs move
    refine htrans _ _ _ ?_ (ih hkept)
    obtain heq | ⟨v, h⟩ := hworld
    · exact heq ▸ hrefl s.world
    · exact hmay v _ _ hs.inv hkept.inv h

end Runs

end NodeManager.Threads
