import NodeManager.Runs

namespace NodeManager.SnapshotCache

open Runs

/-- The configuration and the registry on the disk, each by its version, which no other file has. -/
abbrev Disk := Option Nat × Option Nat

structure Instant where
  disk : Disk
  midway : Bool

/-- The disk with all it has been, and the cache. `storing` is the key of a `get` that has stored
the snapshot only. -/
structure World (Snapshot : Type) where
  past : List Instant := []
  now : Instant
  fresh : Nat
  key : Option Disk := none
  snapshot : Option Snapshot := none
  storing : Option Disk := none

inductive Phase (Snapshot : Type)
  | idle
  | called (started : Nat)
  | config (started config : Nat)
  | read (started : Nat) (key : Disk)
  | matched (started : Nat) (key : Disk)
  | again (started : Nat) (key : Disk) (config : Nat)
  | confirmed (started : Nat) (key : Disk)
  | answered (started ended : Nat) (snapshot : Option Snapshot)

variable {Snapshot Reader : Type}

namespace World

def timeline (w : World Snapshot) : List Instant := w.past ++ [w.now]

def replace (w : World Snapshot) : World Snapshot :=
  { w with
    past := w.timeline
    now := if w.now.midway then ⟨(w.now.disk.1, some w.fresh), false⟩
      else ⟨(some w.fresh, w.now.disk.2), true⟩
    fresh := w.fresh + 1 }

/-- `get` up to the first of its two stores. It waits for the writer, and fails without a readable
configuration. `build` is `ConnectionSnapshot` of what the loaders find. -/
def get (build : Disk → Snapshot) (readable : Bool) (w : World Snapshot) :
    Option Snapshot × World Snapshot :=
  if w.now.midway ∨ w.now.disk.1 = none then (none, w)
  else if w.key = some w.now.disk ∧ w.snapshot.isSome then (w.snapshot, w)
  else if readable then
    (some (build w.now.disk), { w with
      snapshot := some (build w.now.disk), storing := some w.now.disk })
  else (none, w)

def store (w : World Snapshot) : World Snapshot :=
  match w.storing with
  | none => w
  | some key => { w with key := some key, storing := none }

def call (w : World Snapshot) : Phase Snapshot :=
  if w.snapshot.isNone then .answered w.past.length w.past.length none else .called w.past.length

def advance (w : World Snapshot) : Phase Snapshot → Phase Snapshot
  | .called n =>
    match w.now.disk.1 with
    | none => .answered n w.past.length none
    | some config => .config n config
  | .config n config => .read n (some config, w.now.disk.2)
  | .read n key => if some key = w.key then .matched n key else .answered n w.past.length none
  | .matched n key =>
    match w.now.disk.1 with
    | none => .answered n w.past.length none
    | some config => .again n key config
  | .again n key config =>
    if key = (some config, w.now.disk.2) then .confirmed n key else .answered n w.past.length none
  | .confirmed n _ => .answered n w.past.length w.snapshot
  | phase => phase

end World

structure State (Reader Snapshot : Type) where
  world : World Snapshot
  readers : Reader → Phase Snapshot

inductive Step (Reader : Type)
  | replace
  | get (readable : Bool)
  | store
  | call (reader : Reader)
  | advance (reader : Reader)

def next [DecidableEq Reader] (build : Disk → Snapshot) :
    Step Reader → State Reader Snapshot → State Reader Snapshot
  | .replace, s => if s.world.storing.isSome then s else { s with world := s.world.replace }
  | .get readable, s => { s with world := (s.world.get build readable).2 }
  | .store, s => { s with world := s.world.store }
  | .call r, s => { s with readers := Function.update s.readers r s.world.call }
  | .advance r, s =>
    { s with readers := Function.update s.readers r (s.world.advance (s.readers r)) }

def start (config registry : Bool) : State Reader Snapshot where
  world :=
    { now := ⟨(if config then some 0 else none, if registry then some 1 else none), false⟩
      fresh := 2 }
  readers _ := .idle

def During (n m : Nat) (d : Disk) (w : World Snapshot) : Prop :=
  ∃ t i, n ≤ t ∧ t ≤ m ∧ w.timeline[t]? = some i ∧ i.disk = d

def Published (d : Disk) (w : World Snapshot) : Prop :=
  ∃ i ∈ w.timeline, i.disk = d ∧ i.midway = false

variable {build : Disk → Snapshot} {w a b : World Snapshot} {n m : Nat} {d : Disk}

structure Inv (build : Disk → Snapshot) (w : World Snapshot) : Prop where
  old : ∀ c, w.now.disk.1 = some c → c < w.fresh
  cached : ∀ x, w.snapshot = some x → ∃ d, w.storing.or w.key = some d ∧ x = build d ∧ Published d w
  storing : ∀ d, w.storing = some d → d = w.now.disk

/-- An old configuration does not come back, and what is put into the cache is on the disk. -/
structure May (build : Disk → Snapshot) (a b : World Snapshot) : Prop where
  timeline : a.timeline <+: b.timeline
  fresh : a.fresh ≤ b.fresh
  config : ∀ c < a.fresh, b.now.disk.1 = some c → a.now.disk.1 = some c
  snapshot : b.snapshot = a.snapshot ∨ b.snapshot = some (build b.now.disk) ∧ b.now.midway = false

structure Noted (n : Nat) (d : Disk) (w : World Snapshot) : Prop where
  time : n ≤ w.past.length
  old : ∃ c < w.fresh, d.1 = some c
  during : w.now.disk.1 = d.1 → During n w.past.length d w

structure Matched (build : Disk → Snapshot) (n : Nat) (d : Disk) (w : World Snapshot) :
    Prop extends Noted n d w where
  snapshot : ∀ x, w.snapshot = some x → ∃ e, x = build e ∧ Published e w ∧
    (e = d ∨ During n w.past.length e w)

def Knows (build : Disk → Snapshot) (w : World Snapshot) : Phase Snapshot → Prop
  | .idle => True
  | .called n => n ≤ w.past.length
  | .config n c => n ≤ w.past.length ∧ c < w.fresh
  | .read n d => Noted n d w
  | .matched n d => Matched build n d w
  | .again n d c => Matched build n d w ∧ (d.1 = some c → During n w.past.length d w)
  | .confirmed n d => Matched build n d w ∧ During n w.past.length d w
  | .answered n m found => ∀ x, found = some x → ∃ d, x = build d ∧ Published d w ∧ During n m d w

theorem During.now (hn : n ≤ w.past.length) : During n w.past.length w.now.disk w :=
  ⟨w.past.length, w.now, hn, Nat.le_refl _, by simp [World.timeline], rfl⟩

theorem Published.now (h : w.now.midway = false) : Published w.now.disk w :=
  ⟨w.now, List.mem_append_right _ List.mem_cons_self, rfl, h⟩

section Grow

variable (h : May build a b)
include h

theorem May.time : a.past.length ≤ b.past.length := by
  simpa [World.timeline] using h.timeline.length_le

theorem During.grow (hd : During n m d a) {m' : Nat} (hm : m ≤ m') : During n m' d b := by
  obtain ⟨t, i, hn, ht, hi, hid⟩ := hd
  obtain ⟨rest, hrest⟩ := h.timeline
  refine ⟨t, i, hn, Nat.le_trans ht hm, ?_, hid⟩
  rw [← hrest, List.getElem?_append_left (List.getElem?_eq_some_iff.mp hi).1, hi]

theorem Published.grow (hd : Published d a) : Published d b := by
  obtain ⟨i, hi, hid⟩ := hd
  exact ⟨i, h.timeline.subset hi, hid⟩

theorem Noted.grow (ha : Noted n d a) : Noted n d b := by
  obtain ⟨c, hc, hd⟩ := ha.old
  refine ⟨Nat.le_trans ha.time h.time, ⟨c, Nat.lt_of_lt_of_le hc h.fresh, hd⟩, fun hconfig => ?_⟩
  exact (ha.during (hd ▸ h.config c hc (hconfig.trans hd))).grow h h.time

theorem Matched.grow (ha : Matched build n d a) : Matched build n d b := by
  have hb := ha.toNoted.grow h
  refine ⟨hb, fun x hx => ?_⟩
  obtain hsame | ⟨hnew, hwhole⟩ := h.snapshot
  · obtain ⟨e, hxe, hpublished, he⟩ := ha.snapshot x (hsame.symm.trans hx)
    exact ⟨e, hxe, hpublished.grow h, he.imp_right (·.grow h h.time)⟩
  · exact ⟨b.now.disk, Option.some.inj (hx.symm.trans hnew), .now hwhole, .inr (.now hb.time)⟩

theorem Knows.grow {phase : Phase Snapshot} (ha : Knows build a phase) : Knows build b phase := by
  cases phase with
  | idle => trivial
  | called n => exact Nat.le_trans ha h.time
  | config n c => exact ⟨Nat.le_trans ha.1 h.time, Nat.lt_of_lt_of_le ha.2 h.fresh⟩
  | read n d => exact Noted.grow h ha
  | matched n d => exact Matched.grow h ha
  | again n d c => exact ⟨ha.1.grow h, fun hc => (ha.2 hc).grow h h.time⟩
  | confirmed n d => exact ⟨ha.1.grow h, ha.2.grow h h.time⟩
  | answered n m found =>
    intro x hx
    obtain ⟨d, hxd, hpublished, hd⟩ := ha x hx
    exact ⟨d, hxd, hpublished.grow h, hd.grow h (Nat.le_refl m)⟩

end Grow

theorem Knows.advance (hw : Inv build w) {phase : Phase Snapshot} (h : Knows build w phase) :
    Knows build w (w.advance phase) := by
  cases phase with
  | idle => trivial
  | called n =>
    simp only [World.advance]
    split
    · nofun
    next c hc => exact ⟨h, hw.old c hc⟩
  | config n c =>
    refine ⟨h.1, ⟨c, h.2, rfl⟩, fun (hc : w.now.disk.1 = some c) => ?_⟩
    rw [← hc]
    exact .now h.1
  | read n d =>
    simp only [World.advance]
    split
    next hkey =>
      refine ⟨h, fun x hx => ?_⟩
      obtain ⟨e, he, hxe, hpublished⟩ := hw.cached x hx
      refine ⟨e, hxe, hpublished, ?_⟩
      obtain hstoring | ⟨-, he⟩ := Option.or_eq_some_iff.mp he
      · exact .inr (hw.storing e hstoring ▸ .now h.time)
      · exact .inl (Option.some.inj (he.symm.trans hkey.symm))
    · nofun
  | matched n d =>
    simp only [World.advance]
    split
    · nofun
    next c hc => exact ⟨h, fun hd => h.during (hc.trans hd.symm)⟩
  | again n d c =>
    simp only [World.advance]
    split
    next hd => exact ⟨h.1, h.2 (congrArg Prod.fst hd)⟩
    · nofun
  | confirmed n d =>
    intro x hx
    obtain ⟨e, hxe, hpublished, rfl | he⟩ := h.1.snapshot x hx
    · exact ⟨e, hxe, hpublished, h.2⟩
    · exact ⟨e, hxe, hpublished, he⟩
  | answered n m found => exact h

theorem May.refl (w : World Snapshot) : May build w w :=
  ⟨List.prefix_rfl, Nat.le_refl _, fun _ _ h => h, .inl rfl⟩

theorem replace_spec (hw : Inv build w) (hfree : ¬w.storing.isSome) :
    Inv build w.replace ∧ May build w w.replace := by
  have hmay : May build w w.replace := by
    refine ⟨List.prefix_append _ _, Nat.le_succ _, fun c hc h => ?_, .inl rfl⟩
    simp only [World.replace] at h
    split at h
    · exact h
    · cases h
      exact absurd hc (Nat.lt_irrefl _)
  refine ⟨⟨fun c hc => ?_, fun x hx => ?_,
    fun d hd => absurd (Option.isSome_of_mem hd) hfree⟩, hmay⟩
  · simp only [World.replace] at hc ⊢
    split at hc
    · exact Nat.lt_succ_of_lt (hw.old c hc)
    · cases hc
      exact Nat.lt_succ_self _
  · obtain ⟨d, hd, hxd, hpublished⟩ := hw.cached x hx
    exact ⟨d, hd, hxd, hpublished.grow hmay⟩

theorem get_spec (hw : Inv build w) (readable : Bool) :
    Inv build (w.get build readable).2 ∧ May build w (w.get build readable).2 := by
  have hsame : Inv build w ∧ May build w w := ⟨hw, .refl w⟩
  simp only [World.get]
  split
  · exact hsame
  next hidle =>
    have hwhole : w.now.midway = false := by simpa using (not_or.mp hidle).1
    split
    · exact hsame
    split
    · refine ⟨⟨hw.old, fun x hx => ?_, fun d hd => (Option.some.inj hd).symm⟩,
        { hsame.2 with snapshot := .inr ⟨rfl, hwhole⟩ }⟩
      exact ⟨_, rfl, (Option.some.inj hx).symm, .now hwhole⟩
    · exact hsame

theorem store_spec (hw : Inv build w) : Inv build w.store ∧ May build w w.store := by
  unfold World.store
  split
  · exact ⟨hw, .refl w⟩
  next key hstoring =>
    refine ⟨⟨hw.old, fun x hx => ?_, nofun⟩, { May.refl w with }⟩
    obtain ⟨d, hd, h⟩ := hw.cached x hx
    rw [hstoring] at hd
    exact ⟨d, hd, h⟩

structure Sound (build : Disk → Snapshot) (s : State Reader Snapshot) : Prop where
  inv : Inv build s.world
  readers : ∀ r, Knows build s.world (s.readers r)

theorem Sound.next [DecidableEq Reader] {s : State Reader Snapshot} (h : Sound build s)
    (step : Step Reader) :
    Sound build (next build step s) := by
  have hupdate : ∀ r phase, Knows build s.world phase →
      ∀ r', Knows build s.world (Function.update s.readers r phase r') := by
    intro r phase hphase r'
    rw [Function.update_apply]
    split
    · exact hphase
    · exact h.readers r'
  cases step with
  | replace =>
    simp only [SnapshotCache.next]
    split
    · exact h
    next hfree =>
      exact ⟨(replace_spec h.inv hfree).1, fun r => (h.readers r).grow (replace_spec h.inv hfree).2⟩
  | get readable =>
    exact ⟨(get_spec h.inv readable).1, fun r => (h.readers r).grow (get_spec h.inv readable).2⟩
  | store => exact ⟨(store_spec h.inv).1, fun r => (h.readers r).grow (store_spec h.inv).2⟩
  | call r =>
    refine ⟨h.inv, hupdate r _ ?_⟩
    unfold World.call
    split
    · nofun
    · exact Nat.le_refl _
  | advance r => exact ⟨h.inv, hupdate r _ ((h.readers r).advance h.inv)⟩

theorem sound_start (config registry : Bool) :
    Sound build (start config registry : State Reader Snapshot) := by
  refine ⟨⟨fun c hc => ?_, nofun, nofun⟩, fun _ => trivial⟩
  cases config with
  | false => cases hc
  | true =>
    cases hc
    exact Nat.zero_lt_two

/-- `current` answers with what was built from a pair that was on the disk during the call, left
there by one publication. -/
theorem current_was_on_disk [DecidableEq Reader] (config registry : Bool)
    (steps : List (Step Reader)) {s : State Reader Snapshot}
    (hs : s = run (next build) steps (start config registry)) {r : Reader} {x : Snapshot}
    (hr : s.readers r = .answered n m (some x)) :
    ∃ d, x = build d ∧ Published d s.world ∧ During n m d s.world := by
  have hsound : Sound build s := hs ▸
    run_preserves (fun _ step h => h.next step) steps (sound_start config registry)
  exact (hr ▸ hsound.readers r : Knows build s.world (.answered n m (some x))) x rfl

/-- A call that has compared all versions answers with a publication that ends before it does. -/
theorem newer_pair_answered :
    let s := run (next id) ([.get true, .store, .call (), .advance (), .advance (), .advance (),
      .advance (), .advance (), .replace, .replace, .get true, .advance ()] :
      List (Step Unit)) (start true false)
    s.readers () = .answered 0 2 (some (some 2, some 3)) ∧
      ∃ d, (some 2, some 3) = id d ∧ Published d s.world ∧ During 0 2 d s.world :=
  ⟨rfl, current_was_on_disk _ _ _ rfl (r := ()) rfl⟩

end NodeManager.SnapshotCache
