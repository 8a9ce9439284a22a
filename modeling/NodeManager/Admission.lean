import NodeManager.Userstate

namespace NodeManager.Admission

open Dictionary Runs Userstate

/-- What the holder of `reloadMu` does. A commit holds the gate until it has collected the sessions,
and then closes them one by one. -/
inductive Writer
  | idle
  | prepared (publications : List Prepared)
  | collecting (retired : List Token)
  | closing (retired : List Token) (sessions : List Handle)

inductive Event
  | bound (handle : Handle) (token : Token)
  | refused (handle : Handle) (token : Token)
  | returned (retired : List Token)
  deriving DecidableEq

/-- `admitting` are the calls of `Bind` that hold the gate. `retired` and `log` record what has
happened. -/
structure State where
  manager : Manager := {}
  admitting : List (Handle × Token) := []
  writer : Writer := .idle
  retired : List Token := []
  log : List Event := []

inductive Action
  | newSession
  | bindCheck (handle : Handle) (token : Token)
  | bindCancelled (handle : Handle) (token : Token)
  | bindAdmit (handle : Handle) (token : Token)
  | closeSession (handle : Handle)
  | prepare (table : String) (fingerprints : Dict String String) (force : List String)
  | abandon
  | publish
  | closeTable (table : String)
  | collect
  | closeNext
  | finish

def State.prepare (s : State) (table : String) (fingerprints : Dict String String)
    (force : List String) (publications : List Prepared) : State :=
  let result := s.manager.prepare table fingerprints force
  { s with manager := result.1, writer := .prepared (publications ++ [result.2]) }

/-- One step of some goroutine; a step that has to wait for a lock changes nothing. -/
def step : Action → State → State
  | .newSession, s => { s with manager := s.manager.newSession }
  | .bindCheck handle token, s =>
    match s.writer with
    | .collecting _ => s
    | _ =>
      if s.manager.valid token then { s with admitting := s.admitting ++ [(handle, token)] }
      else { s with log := s.log ++ [.refused handle token] }
  | .bindCancelled handle token, s => { s with log := s.log ++ [.refused handle token] }
  | .bindAdmit handle token, s =>
    if (handle, token) ∈ s.admitting then
      let result := s.manager.bind handle token
      { s with
        manager := result.1
        admitting := s.admitting.erase (handle, token)
        log := s.log ++ [if result.2 then .bound handle token else .refused handle token] }
    else s
  | .closeSession handle, s => { s with manager := s.manager.close handle }
  | .prepare table fingerprints force, s =>
    match s.writer with
    | .idle => s.prepare table fingerprints force []
    | .prepared publications =>
      if table ∈ publications.map Prepared.table then s
      else s.prepare table fingerprints force publications
    | _ => s
  | .abandon, s =>
    match s.writer with
    | .prepared _ => { s with writer := .idle }
    | _ => s
  | .publish, s =>
    match s.writer with
    | .prepared publications =>
      if s.admitting = [] then
        let retired := publications.flatMap Prepared.retired
        { s with
          manager := publications.foldl Manager.publish s.manager
          writer := .collecting retired
          retired := s.retired ++ retired }
      else s
    | _ => s
  | .closeTable table, s =>
    match s.writer with
    | .idle =>
      if s.admitting = [] then
        let result := s.manager.clear table
        { s with
          manager := result.1, writer := .collecting result.2, retired := s.retired ++ result.2 }
      else s
    | _ => s
  | .collect, s =>
    match s.writer with
    | .collecting retired => { s with writer := .closing retired (s.manager.sessionsOf retired) }
    | _ => s
  | .closeNext, s =>
    match s.writer with
    | .closing retired (handle :: sessions) =>
      { s with manager := s.manager.close handle, writer := .closing retired sessions }
    | _ => s
  | .finish, s =>
    match s.writer with
    | .closing retired [] => { s with writer := .idle, log := s.log ++ [.returned retired] }
    | _ => s

structure Guarded (s s' : State) : Prop where
  revoked : ∀ token ∈ s.retired, token ∈ s'.retired ∧ s'.manager.valid token = false
  refused : ∃ events, s'.log = s.log ++ events ∧ ∀ handle token, .bound handle token ∈ events →
    token ∉ s.retired
  returned : ∀ retired, .returned retired ∈ s'.log →
    ∀ token ∈ retired, ∀ handle, (token, handle) ∉ s'.manager.sessions
  registered : ∀ token handle, (token, handle) ∈ s'.manager.sessions →
    s'.manager.session handle = { identity := some token, closed := false }
  kept : ∀ handle token, (s.manager.session handle).identity = some token →
    (s'.manager.session handle).identity = some token

structure Sound (m : Manager) (retired : List Token) : Prop where
  registered : ∀ token handle, (token, handle) ∈ m.sessions →
    m.session handle = { identity := some token, closed := false }
  dead : ∀ token ∈ retired, m.valid token = false ∧ token < m.allocated
  tables : ∀ table name entry, (m.tables table).get? name = some entry →
    m.home entry.identity = (table, name) ∧ entry.identity ∉ retired ∧ entry.identity < m.allocated

structure Fits (m : Manager) (retired : List Token) (p : Prepared) : Prop where
  next : ∀ name entry, p.next.get? name = some entry →
    m.home entry.identity = (p.table, name) ∧ entry.identity ∉ retired ∧
    entry.identity < m.allocated
  retired : ∀ token ∈ p.retired, ∃ name entry, (m.tables p.table).get? name = some entry ∧
    entry.identity = token ∧
    (p.next.get? name).map Entry.identity ≠ some token

variable {m m' : Manager} {retired : List Token} {p : Prepared} {token : Token} {s s' : State}

theorem Sound.extend (h : Sound m retired) (hm : m.Extends m') : Sound m' retired := by
  refine ⟨?_, fun token htoken => ?_, fun table name entry hentry => ?_⟩
  · rw [hm.sessions, hm.session]
    exact h.registered
  · rw [hm.valid]
    exact ⟨(h.dead token htoken).1, Nat.lt_of_lt_of_le (h.dead token htoken).2 hm.allocated⟩
  rw [hm.tables] at hentry
  obtain ⟨hhome, hlive, hlt⟩ := h.tables table name entry hentry
  exact ⟨(hm.home _ hlt).trans hhome, hlive, Nat.lt_of_lt_of_le hlt hm.allocated⟩

theorem Fits.extend (h : Fits m retired p) (hm : m.Extends m') : Fits m' retired p := by
  refine ⟨fun name entry hentry => ?_, fun token htoken => ?_⟩
  · obtain ⟨hhome, hlive, hlt⟩ := h.next name entry hentry
    exact ⟨(hm.home _ hlt).trans hhome, hlive, Nat.lt_of_lt_of_le hlt hm.allocated⟩
  · rw [hm.tables]
    exact h.retired token htoken

theorem Sound.fits_of_preparing (h : Sound m retired) {table : String} {force : List String}
    {users : List (String × String)} {next : Dict String Entry}
    (hspec : m.Preparing table force users (m', next)) :
    Fits m' retired ⟨table, next, Manager.retiredBy (m.tables table) next⟩ := by
  refine ⟨fun name entry hentry => ?_, fun token htoken => ?_⟩
  · obtain ⟨user, huser, rfl⟩ := List.mem_map.mp (hspec.only name entry hentry)
    obtain ⟨entry', hentry', hrenewed⟩ := hspec.users user huser
    obtain rfl : entry' = entry := Option.some.inj (hentry'.symm.trans hentry)
    obtain hold | ⟨-, -, hge, hlt, hhome⟩ := hrenewed
    · exact ((h.extend hspec.frame).tables table user.1 entry' (by
        rw [hspec.frame.tables]
        exact (Option.filter_eq_some_iff.mp hold).1))
    · exact ⟨hhome, fun hmem => Nat.not_lt.mpr hge (h.dead _ hmem).2, hlt⟩
  · rw [hspec.frame.tables]
    exact Manager.mem_retiredBy.mp htoken

theorem Sound.not_mem_append (h : Sound m retired) {table table' name : String} {gone : List Token}
    (hgone : ∀ token ∈ gone, ∃ name entry, (m.tables table).get? name = some entry ∧
      entry.identity = token)
    (hne : table' ≠ table) (hhome : m.home token = (table', name)) (hlive : token ∉ retired) :
    token ∉ retired ++ gone := by
  intro hmem
  obtain hmem | hmem := List.mem_append.mp hmem
  · exact hlive hmem
  · obtain ⟨name', entry, hentry, rfl⟩ := hgone token hmem
    exact hne (Prod.mk.inj (hhome.symm.trans (h.tables table name' entry hentry).1)).1

theorem Fits.of_table (hp : Fits m retired p) : ∀ token ∈ p.retired,
    ∃ name entry, (m.tables p.table).get? name = some entry ∧ entry.identity = token := by
  intro token htoken
  obtain ⟨name, entry, hentry, heq, -⟩ := hp.retired token htoken
  exact ⟨name, entry, hentry, heq⟩

theorem Sound.not_mem_next (h : Sound m retired) (hp : Fits m retired p)
    (htoken : token ∈ retired ++ p.retired) :
    token ∉ p.next.entries.map (·.2.identity) := by
  rw [Manager.mem_identities]
  rintro ⟨name, entry, hentry, rfl⟩
  obtain ⟨hhome, hlive, -⟩ := hp.next name entry hentry
  obtain htoken | htoken := List.mem_append.mp htoken
  · exact hlive htoken
  obtain ⟨name', entry', hentry', heq, hne⟩ := hp.retired _ htoken
  have hhome' := (h.tables p.table name' entry' hentry').1
  rw [heq, hhome] at hhome'
  obtain rfl : name = name' := (Prod.mk.inj hhome').2
  exact hne (by rw [hentry]; rfl)

theorem Sound.publish (h : Sound m retired) (hp : Fits m retired p) :
    Sound (m.publish p) (retired ++ p.retired) := by
  refine ⟨h.registered, fun token htoken => ⟨?_, ?_⟩, fun table name entry hentry => ?_⟩
  · have hnext := h.not_mem_next hp htoken
    simp only [Manager.publish, if_neg hnext]
    split
    · rfl
    next hretired =>
      exact (h.dead token ((List.mem_append.mp htoken).resolve_right hretired)).1
  · obtain htoken | htoken := List.mem_append.mp htoken
    · exact (h.dead token htoken).2
    · obtain ⟨name, entry, hentry, rfl⟩ := hp.of_table token htoken
      exact (h.tables p.table name entry hentry).2.2
  · simp only [Manager.publish] at hentry ⊢
    by_cases htable : table = p.table
    · subst htable
      rw [Function.update_self] at hentry
      obtain ⟨hhome, -, hlt⟩ := hp.next name entry hentry
      exact ⟨hhome, fun hmem => h.not_mem_next hp hmem
        (Manager.mem_identities.mpr ⟨name, entry, hentry, rfl⟩), hlt⟩
    · rw [Function.update_of_ne htable] at hentry
      obtain ⟨hhome, hlive, hlt⟩ := h.tables table name entry hentry
      exact ⟨hhome, h.not_mem_append hp.of_table htable hhome hlive, hlt⟩

theorem Fits.publish {q : Prepared} (h : Sound m retired) (hp : Fits m retired p)
    (hq : Fits m retired q) (hne : q.table ≠ p.table) :
    Fits (m.publish p) (retired ++ p.retired) q := by
  refine ⟨fun name entry hentry => ?_, fun token htoken => ?_⟩
  · obtain ⟨hhome, hlive, hlt⟩ := hq.next name entry hentry
    exact ⟨hhome, h.not_mem_append hp.of_table hne hhome hlive, hlt⟩
  have htables : (m.publish p).tables q.table = m.tables q.table := Function.update_of_ne hne _ _
  rw [htables]
  exact hq.retired token htoken

theorem Sound.publishAll {ps : List Prepared} (hnodup : (ps.map Prepared.table).Nodup)
    (h : Sound m retired) (hps : ∀ p ∈ ps, Fits m retired p) :
    Sound (ps.foldl Manager.publish m) (retired ++ ps.flatMap Prepared.retired) := by
  induction ps generalizing m retired with
  | nil => simpa using h
  | cons p ps ih =>
    obtain ⟨hp, hnodup⟩ := List.nodup_cons.mp hnodup
    have hfits := hps p List.mem_cons_self
    have hrest := ih hnodup (h.publish hfits) (fun q hq =>
      hfits.publish h (hps q (List.mem_cons_of_mem p hq))
        (fun heq => hp (heq ▸ List.mem_map_of_mem hq)))
    simpa using hrest

theorem Sound.clear (h : Sound m retired) (table : String) :
    Sound (m.clear table).1 (retired ++ (m.clear table).2) := by
  have hmem {token : Token} : token ∈ (m.clear table).2 ↔
      ∃ name entry, (m.tables table).get? name = some entry ∧ entry.identity = token :=
      Manager.mem_identities
  refine ⟨h.registered, fun token htoken => ⟨?_, ?_⟩, fun table' name entry hentry => ?_⟩
  · simp only [Manager.clear]
    split
    · rfl
    next hnot => exact (h.dead token ((List.mem_append.mp htoken).resolve_right hnot)).1
  · obtain htoken | htoken := List.mem_append.mp htoken
    · exact (h.dead token htoken).2
    · obtain ⟨name, entry, hentry, rfl⟩ := hmem.mp htoken
      exact (h.tables table name entry hentry).2.2
  simp only [Manager.clear] at hentry
  by_cases htable : table' = table
  · rw [htable, Function.update_self] at hentry
    cases hentry
  rw [Function.update_of_ne htable] at hentry
  obtain ⟨hhome, hlive, hlt⟩ := h.tables table' name entry hentry
  exact ⟨hhome, h.not_mem_append (fun _ => hmem.mp) htable hhome hlive, hlt⟩

theorem close_sessions_subset (m : Manager) (handle : Handle) {entry : Token × Handle}
    (h : entry ∈ (m.close handle).sessions) : entry ∈ m.sessions := by
  unfold Manager.close at h
  split at h
  · exact h
  · exact (List.mem_filter.mp h).1

theorem close_identity (m : Manager) (handle other : Handle) :
    ((m.close handle).session other).identity = (m.session other).identity := by
  unfold Manager.close
  split
  · rfl
  by_cases heq : other = handle
  · simp [Manager.setSession, heq]
  · simp [Manager.setSession, heq]

theorem Sound.not_mem_close (h : Sound m retired) (token : Token) (handle : Handle) :
    (token, handle) ∉ (m.close handle).sessions := by
  intro hmem
  have hsession := h.registered token handle (close_sessions_subset m handle hmem)
  unfold Manager.close at hmem
  rw [if_neg (by simp [hsession])] at hmem
  have hkept := (List.mem_filter.mp hmem).2
  simp [hsession] at hkept

theorem close_same (m : Manager) (handle : Handle) : (m.close handle).valid = m.valid ∧
    (m.close handle).tables = m.tables ∧ (m.close handle).home = m.home ∧
    (m.close handle).allocated = m.allocated := by
  unfold Manager.close
  split <;> exact ⟨rfl, rfl, rfl, rfl⟩

theorem Sound.close (h : Sound m retired) (handle : Handle) : Sound (m.close handle) retired := by
  have hsame := close_same m handle
  refine ⟨fun token other hother => ?_, ?_, ?_⟩
  · have hne : other ≠ handle := by
      rintro rfl
      exact h.not_mem_close token other hother
    have hsession : (m.close handle).session other = m.session other := by
      unfold Manager.close
      split
      · rfl
      · exact Function.update_of_ne hne _ _
    rw [hsession]
    exact h.registered token other (close_sessions_subset m handle hother)
  · rw [hsame.1, hsame.2.2.2]
    exact h.dead
  · rw [hsame.2.1, hsame.2.2.1, hsame.2.2.2]
    exact h.tables

theorem bind_cases (m : Manager) (handle : Handle) (token : Token) : (m.bind handle token).1 = m ∨
      (m.session handle = {} ∧ (m.bind handle token).1 =
        { m.setSession handle { identity := some token, closed := false } with
          sessions := m.sessions ++ [(token, handle)] }) := by
  unfold Manager.bind
  dsimp only
  split
  · exact .inl rfl
  next hopen =>
    split
    next hnone =>
      have hclosed : (m.session handle).closed = false := by
        rw [not_or, not_or] at hopen
        simpa using hopen.2.1
      have hsession : m.session handle = {} := by
        cases hs : m.session handle
        simp_all
      exact .inr ⟨hsession, by rw [hsession]⟩
    · exact .inl rfl

theorem Sound.bind (h : Sound m retired) (handle : Handle) (token : Token) :
    Sound (m.bind handle token).1 retired := by
  obtain heq | ⟨hnew, heq⟩ := bind_cases m handle token
  · rwa [heq]
  rw [heq]
  refine ⟨fun token' other hother => ?_, h.dead, h.tables⟩
  simp only [Manager.setSession] at hother ⊢
  by_cases heq' : other = handle
  · subst heq'
    obtain hother | hother := List.mem_append.mp hother
    · cases (h.registered token' other hother).symm.trans hnew
    · rw [List.mem_singleton.mp hother |> Prod.mk.inj |>.1, Function.update_self]
  · rw [Function.update_of_ne heq']
    obtain hother | hother := List.mem_append.mp hother
    · exact h.registered token' other hother
    · exact absurd (Prod.mk.inj (List.mem_singleton.mp hother)).2 heq'

def WriterHolds (m : Manager) (retired : List Token) : Writer → Prop
  | .idle => True
  | .prepared publications =>
    (publications.map Prepared.table).Nodup ∧ ∀ p ∈ publications, Fits m retired p
  | .collecting tokens => ∀ token ∈ tokens, token ∈ retired
  | .closing tokens sessions =>
    ∀ token ∈ tokens, token ∈ retired ∧ ∀ handle, (token, handle) ∈ m.sessions → handle ∈ sessions

structure Inv (s : State) : Prop where
  sound : Sound s.manager s.retired
  admitting : ∀ handle token, (handle, token) ∈ s.admitting → token ∉ s.retired
  writer : WriterHolds s.manager s.retired s.writer
  returned : ∀ tokens, .returned tokens ∈ s.log →
    ∀ token ∈ tokens, token ∈ s.retired ∧ ∀ handle, (token, handle) ∉ s.manager.sessions

theorem WriterHolds.mono {w : Writer} (h : WriterHolds m retired w) (htables : m'.tables = m.tables)
    (hhome : m'.home = m.home) (hallocated : m'.allocated = m.allocated)
    (hsessions : ∀ token ∈ retired, ∀ handle, (token, handle) ∈ m'.sessions →
      (token, handle) ∈ m.sessions) :
    WriterHolds m' retired w := by
  cases w with
  | idle => trivial
  | prepared publications =>
    refine ⟨h.1, fun p hp => ⟨?_, ?_⟩⟩
    · rw [hhome, hallocated]
      exact (h.2 p hp).next
    · rw [htables]
      exact (h.2 p hp).retired
  | collecting tokens => exact h
  | closing tokens sessions =>
    intro token htoken
    obtain ⟨hretired, hmem⟩ := h token htoken
    exact ⟨hretired, fun handle hhandle => hmem handle (hsessions token hretired handle hhandle)⟩

theorem Inv.sessions (h : Inv s) (hsound : Sound m' s.retired)
    (htables : m'.tables = s.manager.tables) (hhome : m'.home = s.manager.home)
    (hallocated : m'.allocated = s.manager.allocated)
    (hsessions : ∀ token ∈ s.retired, ∀ handle, (token, handle) ∈ m'.sessions →
    (token, handle) ∈ s.manager.sessions) :
    Inv { s with manager := m' } where
  sound := hsound
  admitting := h.admitting
  writer := h.writer.mono htables hhome hallocated hsessions
  returned tokens htokens token htoken := by
    obtain ⟨hretired, hnone⟩ := h.returned tokens htokens token htoken
    exact ⟨hretired, fun handle hmem => hnone handle (hsessions token hretired handle hmem)⟩

theorem Inv.close (h : Inv s) (handle : Handle) :
    Inv { s with manager := s.manager.close handle } := by
  obtain ⟨-, htables, hhome, hallocated⟩ := close_same s.manager handle
  exact h.sessions (h.sound.close handle) htables hhome hallocated
    (fun _ _ _ hmem => close_sessions_subset s.manager handle hmem)

theorem Inv.bind (h : Inv s) {handle : Handle} (hlive : token ∉ s.retired) :
    Inv { s with manager := (s.manager.bind handle token).1 } := by
  have hsound := h.sound.bind handle token
  obtain heq | ⟨-, heq⟩ := bind_cases s.manager handle token
  · rwa [heq]
  rw [heq] at hsound ⊢
  refine h.sessions hsound rfl rfl rfl (fun token' hretired other hmem => ?_)
  obtain hmem | hmem := List.mem_append.mp hmem
  · exact hmem
  · cases List.mem_singleton.mp hmem
    exact absurd hretired hlive

theorem Inv.record {s : State} (h : Inv s) {event : Event}
    (hevent : ∀ tokens, event ≠ .returned tokens) :
    Inv { s with log := s.log ++ [event] } where
  sound := h.sound
  admitting := h.admitting
  writer := h.writer
  returned tokens htokens := by
    obtain hmem | hmem := List.mem_append.mp htokens
    · exact h.returned tokens hmem
    · exact absurd (List.mem_singleton.mp hmem).symm (hevent tokens)

theorem Inv.prepare (h : Inv s) {table : String} {fingerprints : Dict String String}
    {force : List String} {publications : List Prepared}
    (htable : table ∉ publications.map Prepared.table)
    (hps : WriterHolds s.manager s.retired (.prepared publications)) :
    Inv (s.prepare table fingerprints force publications) := by
  have hspec := s.manager.prepare_spec table fingerprints force
  have hextends := hspec.frame
  have hfits : Fits _ _ (s.manager.prepare table fingerprints force).2 :=
    h.sound.fits_of_preparing hspec
  have hname : (s.manager.prepare table fingerprints force).2.table = table := rfl
  refine ⟨h.sound.extend hextends, h.admitting, ⟨?_, fun p hp => ?_⟩,
    fun tokens htokens token htoken => ?_⟩
  · rw [List.map_append, List.map_singleton, hname]
    exact List.Nodup.append hps.1 (List.nodup_singleton table) (List.disjoint_singleton.mpr htable)
  · obtain hp | hp := List.mem_append.mp hp
    · exact (hps.2 p hp).extend hextends
    · rwa [List.mem_singleton.mp hp]
  · have hsessions : (s.prepare table fingerprints force publications).manager.sessions =
      s.manager.sessions :=
      hextends.sessions
    rw [hsessions]
    exact h.returned tokens htokens token htoken

theorem Inv.retire (h : Inv s) {tokens : List Token} (hgate : s.admitting = [])
    (hsound : Sound m' (s.retired ++ tokens)) (hsessions : m'.sessions = s.manager.sessions) :
    Inv { s with manager := m', writer := .collecting tokens, retired := s.retired ++ tokens } := by
  refine ⟨hsound, ?_, fun token htoken => List.mem_append_right _ htoken,
    fun tokens' htokens token htoken => ?_⟩
  · rw [hgate]
    exact nofun
  · obtain ⟨hretired, hnone⟩ := h.returned tokens' htokens token htoken
    exact ⟨List.mem_append_left _ hretired, by rwa [hsessions]⟩

theorem publishAll_sessions (ps : List Prepared) (m : Manager) :
    (ps.foldl Manager.publish m).sessions = m.sessions ∧
    (ps.foldl Manager.publish m).session = m.session := by
  induction ps generalizing m with
  | nil => exact ⟨rfl, rfl⟩
  | cons p ps ih => exact ih (m.publish p)

theorem step_inv (h : Inv s) (action : Action) : Inv (step action s) := by
  have hwriter := h.writer
  cases action with
  | newSession =>
    exact h.sessions ⟨h.sound.registered, h.sound.dead, h.sound.tables⟩ rfl rfl rfl
      (fun _ _ _ hmem => hmem)
  | bindCheck handle token =>
    simp only [step]
    split
    · exact h
    split
    next hvalid =>
      refine ⟨h.sound, fun other token' hmem => ?_, hwriter, h.returned⟩
      obtain hmem | hmem := List.mem_append.mp hmem
      · exact h.admitting other token' hmem
      cases List.mem_singleton.mp hmem
      intro hretired
      cases ((h.sound.dead token hretired).1).symm.trans hvalid
    next => exact h.record nofun
  | bindCancelled handle token => exact h.record nofun
  | bindAdmit handle token =>
    simp only [step]
    split
    next hmem =>
      have hbind : Inv { s with
          manager := (s.manager.bind handle token).1
          log := s.log ++ [if (s.manager.bind handle token).2 then .bound handle token
            else .refused handle token] } :=
        (h.bind (h.admitting handle token hmem)).record (fun tokens => by split <;> nofun)
      exact ⟨hbind.sound, fun other token' hmem' =>
        h.admitting other token' (List.mem_of_mem_erase hmem'), hbind.writer, hbind.returned⟩
    · exact h
  | closeSession handle => exact h.close handle
  | prepare table fingerprints force =>
    simp only [step]
    split
    next => exact h.prepare List.not_mem_nil ⟨List.nodup_nil, nofun⟩
    next publications hw =>
      rw [hw] at hwriter
      split
      · exact h
      next htable => exact h.prepare htable hwriter
    · exact h
  | abandon =>
    simp only [step]
    split
    · exact ⟨h.sound, h.admitting, trivial, h.returned⟩
    · exact h
  | publish =>
    simp only [step]
    split
    next publications hw =>
      rw [hw] at hwriter
      split
      next hgate =>
        exact h.retire hgate (h.sound.publishAll hwriter.1 hwriter.2)
          (publishAll_sessions publications s.manager).1
      · exact h
    · exact h
  | closeTable table =>
    simp only [step]
    split
    · split
      next hgate => exact h.retire hgate (h.sound.clear table) rfl
      · exact h
    · exact h
  | collect =>
    simp only [step]
    split
    next tokens hw =>
      rw [hw] at hwriter
      exact ⟨h.sound, h.admitting, fun token htoken => ⟨hwriter token htoken, fun handle hmem =>
        Manager.mem_sessionsOf.mpr ⟨token, htoken, hmem⟩⟩, h.returned⟩
    · exact h
  | closeNext =>
    simp only [step]
    split
    next tokens handle sessions hw =>
      rw [hw] at hwriter
      have hclose := h.close handle
      refine ⟨hclose.sound, hclose.admitting,
        fun token htoken => ⟨(hwriter token htoken).1, fun other hmem => ?_⟩, hclose.returned⟩
      have hother := (hwriter token htoken).2 other (close_sessions_subset s.manager handle hmem)
      obtain rfl | hother := List.mem_cons.mp hother
      · exact absurd hmem (h.sound.not_mem_close token other)
      · exact hother
    · exact h
  | finish =>
    simp only [step]
    split
    next tokens hw =>
      rw [hw] at hwriter
      refine ⟨h.sound, h.admitting, trivial, fun tokens' htokens token htoken => ?_⟩
      obtain hmem | hmem := List.mem_append.mp htokens
      · exact h.returned tokens' hmem token htoken
      · cases List.mem_singleton.mp hmem
        exact ⟨(hwriter token htoken).1,
          fun handle hhandle => nomatch (hwriter token htoken).2 handle hhandle⟩
    · exact h

structure Follows (s s' : State) : Prop where
  retired : ∀ token ∈ s.retired, token ∈ s'.retired
  log : ∃ events, s'.log = s.log ++ events ∧ ∀ handle token, .bound handle token ∈ events →
    token ∉ s.retired
  kept : ∀ handle token, (s.manager.session handle).identity = some token →
    (s'.manager.session handle).identity = some token

theorem Follows.refl (s : State) : Follows s s :=
  ⟨fun _ h => h, ⟨[], (List.append_nil _).symm, nofun⟩, fun _ _ h => h⟩

theorem Follows.trans {s'' : State} (h : Follows s s') (h' : Follows s' s'') : Follows s s'' := by
  obtain ⟨events, heq, hbound⟩ := h.log
  obtain ⟨events', heq', hbound'⟩ := h'.log
  refine ⟨fun token ht => h'.retired token (h.retired token ht),
    ⟨events ++ events', ?_, fun handle token hmem => ?_⟩,
    fun handle token hk => h'.kept handle token (h.kept handle token hk)⟩
  · rw [heq', heq, List.append_assoc]
  obtain hmem | hmem := List.mem_append.mp hmem
  · exact hbound handle token hmem
  · exact fun hretired => hbound' handle token hmem (h.retired token hretired)

theorem Follows.quiet (hretired : ∀ token ∈ s.retired, token ∈ s'.retired) (hlog : s'.log = s.log)
    (hkept : ∀ handle token, (s.manager.session handle).identity = some token →
    (s'.manager.session handle).identity = some token) : Follows s s' :=
  ⟨hretired, ⟨[], by rw [hlog, List.append_nil], nofun⟩, hkept⟩

theorem Follows.event {event : Event} (hretired : s'.retired = s.retired)
    (hlog : s'.log = s.log ++ [event])
    (hevent : ∀ handle token, event = .bound handle token → token ∉ s.retired)
    (hkept : ∀ handle token, (s.manager.session handle).identity = some token →
    (s'.manager.session handle).identity = some token) : Follows s s' :=
  ⟨by rw [hretired]; exact fun _ h => h,
    ⟨[event], hlog, fun handle token hmem =>
      hevent handle token (List.mem_singleton.mp hmem).symm⟩, hkept⟩

theorem bind_kept (m : Manager) (handle other : Handle) (token token' : Token)
    (h : (m.session other).identity = some token') :
    ((m.bind handle token).1.session other).identity = some token' := by
  obtain heq | ⟨hnew, heq⟩ := bind_cases m handle token
  · rwa [heq]
  rw [heq]
  by_cases hother : other = handle
  · rw [hother, hnew] at h
    cases h
  · simpa [Manager.setSession, hother] using h

theorem prepare_session (m : Manager) (table : String) (fingerprints : Dict String String)
    (force : List String) :
    (m.prepare table fingerprints force).1.session = m.session :=
  (m.prepare_spec table fingerprints force).frame.session

theorem step_follows (h : Inv s) (action : Action) : Follows s (step action s) := by
  have hsame (handle : Handle) (token : Token)
      (hk : (s.manager.session handle).identity = some token) :
      (s.manager.session handle).identity = some token := hk
  cases action with
  | newSession => exact .quiet (fun _ ht => ht) rfl hsame
  | bindCheck handle token =>
    simp only [step]
    split
    · exact .refl s
    split
    · exact .quiet (fun _ ht => ht) rfl hsame
    · exact .event rfl rfl (by nofun) hsame
  | bindCancelled handle token => exact .event rfl rfl (by nofun) hsame
  | bindAdmit handle token =>
    simp only [step]
    split
    next hmem =>
      refine .event rfl rfl (fun other token' heq => ?_)
        (fun other token' hk => bind_kept _ handle other token token' hk)
      split at heq
      · cases heq
        exact h.admitting handle token hmem
      · cases heq
    · exact .refl s
  | closeSession handle =>
    exact .quiet (fun _ ht => ht) rfl
      (fun other token hk => (close_identity s.manager handle other).trans hk)
  | prepare table fingerprints force =>
    have hprepare (publications : List Prepared) :
        Follows s (s.prepare table fingerprints force publications) := by
      refine .quiet (fun _ ht => ht) rfl (fun handle token hk => ?_)
      rwa [State.prepare, prepare_session]
    simp only [step]
    split
    · exact hprepare []
    · split
      · exact .refl s
      · exact hprepare _
    · exact .refl s
  | abandon =>
    simp only [step]
    split
    · exact .quiet (fun _ ht => ht) rfl hsame
    · exact .refl s
  | publish =>
    simp only [step]
    split
    next publications hw =>
      split
      · refine .quiet (fun _ ht => List.mem_append_left _ ht) rfl (fun handle token hk => ?_)
        rwa [(publishAll_sessions publications s.manager).2]
      · exact .refl s
    · exact .refl s
  | closeTable table =>
    simp only [step]
    split
    · split
      · exact .quiet (fun _ ht => List.mem_append_left _ ht) rfl hsame
      · exact .refl s
    · exact .refl s
  | collect =>
    simp only [step]
    split
    · exact .quiet (fun _ ht => ht) rfl hsame
    · exact .refl s
  | closeNext =>
    simp only [step]
    split
    next tokens handle sessions hw =>
      exact .quiet (fun _ ht => ht) rfl
        (fun other token hk => (close_identity s.manager handle other).trans hk)
    · exact .refl s
  | finish =>
    simp only [step]
    split
    · exact .event rfl rfl (by nofun) hsame
    · exact .refl s

theorem run_inv (h : Inv s) (actions : List Action) :
    Inv (run step actions s) ∧ Follows s (run step actions s) := by
  induction actions generalizing s with
  | nil => exact ⟨h, .refl s⟩
  | cons action actions ih =>
    obtain ⟨hinv, hfollows⟩ := ih (step_inv h action)
    exact ⟨hinv, (step_follows h action).trans hfollows⟩

theorem inv_initial : Inv {} := ⟨⟨nofun, nofun, nofun⟩, nofun, trivial, nofun⟩

/-- In every interleaving what is retired stays so and is bound to nothing new, a commit that has
returned leaves no session of what it retired, and a registered session is open and stays with its
identity. -/
theorem no_admission_after_revocation (actions more : List Action) :
    Guarded (run step actions {}) (run step more (run step actions {})) := by
  obtain ⟨hinv, -⟩ := run_inv inv_initial actions
  obtain ⟨hinv', hfollows⟩ := run_inv hinv more
  exact
    { revoked := fun token htoken =>
        ⟨hfollows.retired token htoken, (hinv'.sound.dead token (hfollows.retired token htoken)).1⟩
      refused := hfollows.log
      returned := fun tokens htokens token htoken => (hinv'.returned tokens htokens token htoken).2
      registered := hinv'.sound.registered
      kept := hfollows.kept }

def credentials (name fingerprint : String) : Dict String String :=
  ⟨[(name, fingerprint)], List.nodup_singleton name⟩

/-- A user is deleted and made again: a late handshake with the old identity fails, the new one is
admitted. -/
example : (run step
    [.prepare "in" (credentials "alice" "key") [], .publish, .collect, .finish, .newSession,
      .bindCheck 0 0, .bindAdmit 0 0, .prepare "in" Dict.empty [], .publish, .collect,
      .closeNext, .finish, .prepare "in" (credentials "alice" "key") [], .publish,
      .collect, .finish, .newSession, .bindCheck 1 0, .bindCheck 1 1, .bindAdmit 1 1] {}).log =
    [.returned [], .bound 0 0, .returned [0], .returned [], .refused 1 0, .bound 1 1] := by
  decide

end NodeManager.Admission
