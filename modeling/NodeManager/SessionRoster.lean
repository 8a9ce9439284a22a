import NodeManager.Admission

namespace NodeManager.SessionRoster

open Dictionary Userstate Admission

def Listed (m : Manager) (token : Token) : Prop :=
  ∃ table name entry, (m.tables table).get? name = some entry ∧ entry.identity = token

structure Roster (m : Manager) : Prop where
  sound : Sound m []
  valid : ∀ token, m.valid token = true ↔ Listed m token

structure Fitting (m : Manager) (p : Prepared) : Prop where
  fits : Fits m [] p
  retired : p.retired = Manager.retiredBy (m.tables p.table) p.next

variable {m m' : Manager} {p : Prepared} {retired : List Token} {table name : String}
  {entry : Entry} {ps : List Prepared} {token : Token}

theorem sound_nil (h : Sound m retired) : Sound m [] :=
  ⟨h.registered, nofun, fun table name entry hentry =>
    ⟨(h.tables table name entry hentry).1, List.not_mem_nil,
      (h.tables table name entry hentry).2.2⟩⟩

theorem fits_nil (h : Fits m retired p) : Fits m [] p :=
  ⟨fun name entry hentry => ⟨(h.next name entry hentry).1, List.not_mem_nil,
    (h.next name entry hentry).2.2⟩, h.retired⟩

theorem Roster.home (h : Roster m) (hentry : (m.tables table).get? name = some entry) :
    m.home entry.identity = (table, name) :=
  (h.sound.tables table name entry hentry).1

theorem Roster.mem_retired (h : Roster m) (hp : Fitting m p)
    (hentry : (m.tables table).get? name = some entry) :
    entry.identity ∈ p.retired ↔ table = p.table ∧
    (p.next.get? name).map Entry.identity ≠ some entry.identity := by
  rw [hp.retired, Manager.mem_retiredBy]
  constructor
  · rintro ⟨name', entry', hentry', heq, hne⟩
    have hhome := h.home hentry'
    rw [heq, h.home hentry] at hhome
    obtain ⟨rfl, rfl⟩ := Prod.mk.inj hhome
    exact ⟨rfl, hne⟩
  · rintro ⟨rfl, hne⟩
    exact ⟨name, entry, hentry, rfl, hne⟩

theorem Roster.not_mem_next (h : Roster m) (hp : Fitting m p)
    (hentry : (m.tables table).get? name = some entry) (hne : table ≠ p.table) :
    entry.identity ∉ p.next.entries.map (·.2.identity) := by
  rw [Manager.mem_identities]
  rintro ⟨name', entry', hentry', heq⟩
  have hhome := (hp.fits.next name' entry' hentry').1
  rw [heq, h.home hentry] at hhome
  exact hne (Prod.mk.inj hhome).1

theorem Roster.publish (h : Roster m) (hp : Fitting m p) : Roster (m.publish p) := by
  refine ⟨sound_nil (h.sound.publish hp.fits), fun token => ?_⟩
  simp only [Manager.publish]
  constructor
  · intro hvalid
    split at hvalid
    next hnext =>
      obtain ⟨name, entry, hentry, heq⟩ := Manager.mem_identities.mp hnext
      exact ⟨p.table, name, entry, by simpa using hentry, heq⟩
    next hnext =>
      split at hvalid
      · cases hvalid
      next hkept =>
        obtain ⟨table, name, entry, hentry, rfl⟩ := (h.valid token).mp hvalid
        have htable : table ≠ p.table := by
          rintro rfl
          rw [h.mem_retired hp hentry, not_and, not_not] at hkept
          obtain ⟨entry', hentry', heq⟩ := Option.map_eq_some_iff.mp (hkept rfl)
          exact hnext (Manager.mem_identities.mpr ⟨name, entry', hentry', heq⟩)
        exact ⟨table, name, entry, by simpa [htable] using hentry, rfl⟩
  · rintro ⟨table, name, entry, hentry, rfl⟩
    dsimp only at hentry
    by_cases htable : table = p.table
    · subst htable
      rw [Function.update_self] at hentry
      rw [if_pos (Manager.mem_identities.mpr ⟨name, entry, hentry, rfl⟩)]
    rw [Function.update_of_ne htable] at hentry
    have hkept : entry.identity ∉ p.retired := by
      rw [h.mem_retired hp hentry]
      exact fun hretired => htable hretired.1
    rw [if_neg (h.not_mem_next hp hentry htable), if_neg hkept]
    exact (h.valid _).mpr ⟨table, name, entry, hentry, rfl⟩

theorem Fitting.publish {q : Prepared} (h : Roster m) (hp : Fitting m p) (hq : Fitting m q)
    (hne : q.table ≠ p.table) :
    Fitting (m.publish p) q := by
  refine ⟨fits_nil (Fits.publish h.sound hp.fits hq.fits hne), ?_⟩
  rw [hq.retired, show (m.publish p).tables q.table = m.tables q.table
    from Function.update_of_ne hne _ _]

structure Published (m m' : Manager) (ps : List Prepared) : Prop where
  roster : Roster m'
  next : ∀ p ∈ ps, m'.tables p.table = p.next
  other : ∀ table, table ∉ ps.map Prepared.table → m'.tables table = m.tables table
  session : m'.session = m.session
  sessions : m'.sessions = m.sessions
  home : m'.home = m.home
  allocated : m'.allocated = m.allocated
  opened : m'.opened = m.opened

theorem publishAll (hnodup : (ps.map Prepared.table).Nodup) (h : Roster m)
    (hps : ∀ p ∈ ps, Fitting m p) :
    Published m (ps.foldl Manager.publish m) ps := by
  induction ps generalizing m with
  | nil => exact ⟨h, nofun, fun _ _ => rfl, rfl, rfl, rfl, rfl, rfl⟩
  | cons p ps ih =>
    obtain ⟨hp, hnodup⟩ := List.nodup_cons.mp hnodup
    have hfits := hps p List.mem_cons_self
    have hrest := ih hnodup (h.publish hfits) (fun q hq =>
      hfits.publish h (hps q (List.mem_cons_of_mem p hq))
        (fun heq => hp (heq ▸ List.mem_map_of_mem hq)))
    refine ⟨hrest.roster, fun q hq => ?_, fun table htable => ?_, hrest.session,
      hrest.sessions, hrest.home, hrest.allocated, hrest.opened⟩
    · obtain rfl | hq := List.mem_cons.mp hq
      · exact (hrest.other q.table hp).trans (Function.update_self _ _ _)
      · exact hrest.next q hq
    · rw [List.map_cons, List.mem_cons, not_or] at htable
      exact (hrest.other table htable.2).trans (Function.update_of_ne htable.1 _ _)

theorem Roster.close (h : Roster m) (handle : Handle) : Roster (m.close handle) := by
  obtain ⟨hvalid, htables, -⟩ := close_same m handle
  refine ⟨h.sound.close handle, fun token => ?_⟩
  rw [hvalid, Listed, htables]
  exact h.valid token

theorem close_closed (m : Manager) (handle other : Handle) :
    ((m.close handle).session other).closed = true ↔ (m.session other).closed = true ∨
    other = handle := by
  unfold Manager.close
  split
  next hclosed =>
    refine ⟨.inl, fun hother => hother.elim id ?_⟩
    rintro rfl
    exact hclosed
  · by_cases heq : other = handle
    · simp [Manager.setSession, heq]
    · simp [Manager.setSession, heq]

theorem Roster.mem_close_sessions (h : Roster m) (handle : Handle) {other : Handle} :
    (token, other) ∈ (m.close handle).sessions ↔ (token, other) ∈ m.sessions ∧ other ≠ handle := by
  constructor
  · intro hmem
    refine ⟨close_sessions_subset m handle hmem, ?_⟩
    rintro rfl
    exact h.sound.not_mem_close token other hmem
  rintro ⟨hmem, hne⟩
  unfold Manager.close
  split
  · exact hmem
  · exact List.mem_filter.mpr ⟨hmem, by simp [hne]⟩

structure Closed (m m' : Manager) (handles : List Handle) : Prop where
  roster : Roster m'
  valid : m'.valid = m.valid
  tables : m'.tables = m.tables
  home : m'.home = m.home
  closed : ∀ handle, (m'.session handle).closed = true ↔ (m.session handle).closed = true ∨
    handle ∈ handles
  sessions : ∀ token handle, (token, handle) ∈ m'.sessions ↔ (token, handle) ∈ m.sessions ∧
    handle ∉ handles

theorem closeAll (h : Roster m) (handles : List Handle) :
    Closed m (handles.foldl Manager.close m) handles := by
  induction handles generalizing m with
  | nil => exact ⟨h, rfl, rfl, rfl, by simp, by simp⟩
  | cons handle handles ih =>
    have hrest := ih (h.close handle)
    obtain ⟨hvalid, htables, hhome, -⟩ := close_same m handle
    refine ⟨hrest.roster, hrest.valid.trans hvalid, hrest.tables.trans htables,
      hrest.home.trans hhome, fun other => ?_, fun token other => ?_⟩
    · rw [List.foldl_cons, hrest.closed, close_closed, List.mem_cons, or_assoc]
    · rw [List.foldl_cons, hrest.sessions, h.mem_close_sessions, List.mem_cons, not_or, and_assoc]

structure Tracked (m : Manager) : Prop where
  roster : Roster m
  sessions : ∀ token handle, (token, handle) ∈ m.sessions → m.valid token = true

theorem Published.valid_of_kept (h : Roster m) (hps : ∀ p ∈ ps, Fitting m p)
    (hpublished : Published m m' ps) (hlisted : Listed m token)
    (hkept : token ∉ ps.flatMap Prepared.retired) : m'.valid token = true := by
  obtain ⟨table, name, entry, hentry, rfl⟩ := hlisted
  refine (hpublished.roster.valid _).mpr ?_
  by_cases htable : table ∈ ps.map Prepared.table
  · obtain ⟨p, hp, rfl⟩ := List.mem_map.mp htable
    have hnot : entry.identity ∉ p.retired := fun hmem => hkept (List.mem_flatMap.mpr ⟨p, hp, hmem⟩)
    rw [h.mem_retired (hps p hp) hentry, not_and, not_not] at hnot
    obtain ⟨entry', hentry', heq⟩ := Option.map_eq_some_iff.mp (hnot rfl)
    exact ⟨p.table, name, entry', by rw [hpublished.next p hp, hentry'], heq⟩
  · exact ⟨table, name, entry, by rw [hpublished.other table htable, hentry], rfl⟩

structure Committed (m m' : Manager) (ps : List Prepared) : Prop where
  tracked : Tracked m'
  next : ∀ p ∈ ps, m'.tables p.table = p.next
  other : ∀ table, table ∉ ps.map Prepared.table → m'.tables table = m.tables table
  closed : ∀ token handle, (token, handle) ∈ m.sessions →
    ((m'.session handle).closed = true ↔ token ∈ ps.flatMap Prepared.retired)
  kept : ∀ token handle, (token, handle) ∈ m.sessions → token ∉ ps.flatMap Prepared.retired →
    (token, handle) ∈ m'.sessions ∧ m'.valid token = true

theorem Tracked.commit (h : Tracked m) (hnodup : (ps.map Prepared.table).Nodup)
    (hps : ∀ p ∈ ps, Fitting m p) :
    Committed m (m.commit ps) ps := by
  have hpublished := publishAll hnodup h.roster hps
  have hclosed := closeAll hpublished.roster
    ((ps.foldl Manager.publish m).sessionsOf (ps.flatMap Prepared.retired))
  -- a session is registered under one identity
  have hmem {token : Token} {handle : Handle} (hsession : (token, handle) ∈ m.sessions) :
      handle ∈ (ps.foldl Manager.publish m).sessionsOf (ps.flatMap Prepared.retired) ↔
        token ∈ ps.flatMap Prepared.retired := by
    rw [Manager.mem_sessionsOf, hpublished.sessions]
    refine ⟨?_, fun hretired => ⟨token, hretired, hsession⟩⟩
    rintro ⟨token', hretired, hsession'⟩
    have heq := (h.roster.sound.registered token handle hsession).symm.trans
      (h.roster.sound.registered token' handle hsession')
    rw [Session.mk.injEq] at heq
    rwa [Option.some.inj heq.1]
  have hkept {token : Token} {handle : Handle} (hsession : (token, handle) ∈ m.sessions)
      (hnot : token ∉ ps.flatMap Prepared.retired) :
      (ps.foldl Manager.publish m).valid token = true :=
    hpublished.valid_of_kept h.roster hps
      ((h.roster.valid token).mp (h.sessions token handle hsession)) hnot
  refine ⟨⟨hclosed.roster, fun token handle hsession => ?_⟩, fun p hp => ?_, fun table htable => ?_,
    fun token handle hsession => ?_, fun token handle hsession hnot => ⟨?_, ?_⟩⟩
  · obtain ⟨hsession, hnot⟩ := (hclosed.sessions token handle).mp hsession
    rw [hpublished.sessions] at hsession
    exact (congrFun hclosed.valid token).trans
      (hkept hsession (fun hretired => hnot ((hmem hsession).mpr hretired)))
  · exact (congrFun hclosed.tables p.table).trans (hpublished.next p hp)
  · exact (congrFun hclosed.tables table).trans (hpublished.other table htable)
  · have hopen := h.roster.sound.registered token handle hsession
    refine (hclosed.closed handle).trans ?_
    rw [hpublished.session, hopen, hmem hsession]
    simp
  · refine (hclosed.sessions token handle).mpr ⟨hpublished.sessions ▸ hsession, ?_⟩
    rwa [hmem hsession]
  · exact (congrFun hclosed.valid token).trans (hkept hsession hnot)

theorem Tracked.extend (h : Tracked m) (hm : m.Extends m') : Tracked m' := by
  refine ⟨⟨h.roster.sound.extend hm, fun token => ?_⟩, fun token handle hsession => ?_⟩
  · rw [hm.valid, Listed, hm.tables]
    exact h.roster.valid token
  rw [hm.sessions] at hsession
  rw [hm.valid]
  exact h.sessions token handle hsession

theorem Tracked.close (h : Tracked m) (handle : Handle) : Tracked (m.close handle) := by
  refine ⟨h.roster.close handle, fun token other hsession => ?_⟩
  rw [(close_same m handle).1]
  exact h.sessions token other (close_sessions_subset m handle hsession)

theorem Tracked.bind (h : Tracked m) (handle : Handle) (hvalid : m.valid token = true) :
    Tracked (m.bind handle token).1 := by
  have hsound := h.roster.sound.bind handle token
  obtain heq | ⟨-, heq⟩ := bind_cases m handle token
  · rwa [heq]
  rw [heq] at hsound ⊢
  refine ⟨⟨hsound, h.roster.valid⟩, fun token' other hsession => ?_⟩
  obtain hsession | hsession := List.mem_append.mp hsession
  · exact h.sessions token' other hsession
  · rw [(Prod.mk.inj (List.mem_singleton.mp hsession)).1]
    exact hvalid

theorem fitting_of_preparing (h : Sound m []) {force : List String} {users : List (String × String)}
    {next : Dict String Entry} (hspec : m.Preparing table force users (m', next)) :
    Fitting m' ⟨table, next, Manager.retiredBy (m.tables table) next⟩ :=
  ⟨h.fits_of_preparing hspec, congrArg (Manager.retiredBy · next)
    (congrFun hspec.frame.tables table).symm⟩

end NodeManager.SessionRoster
