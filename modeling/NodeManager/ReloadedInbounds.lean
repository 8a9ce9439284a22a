import NodeManager.ReloadedOutbounds

namespace NodeManager.ReloadedInbounds

open Dictionary JsonValues Outcomes ReloadPlans RuntimeBox UserReload Userstate

variable {lib : Library} {inbound : Object} {check check' : Object → Option String}
  {duplicate : String} {result result' : Dict String String} {user : Json × Nat}

theorem addFingerprint_mono (hcheck : ∀ user, check user = none → check' user = none)
    (h : addFingerprint lib inbound check duplicate result user = .ok result') :
    addFingerprint lib inbound check' duplicate result user = .ok result' := by
  unfold addFingerprint at h ⊢
  split at h
  · cases h
  next hnone => rwa [hcheck _ hnone]

theorem fingerprints_mono (hcheck : ∀ user, check user = none → check' user = none)
    (h : fingerprints lib inbound check duplicate = .ok result) :
    fingerprints lib inbound check' duplicate = .ok result := by
  unfold fingerprints at h ⊢
  generalize (rows inbound "users").zipIdx = list at h ⊢
  generalize (Dict.empty : Dict String String) = start at h ⊢
  induction list generalizing start with
  | nil => exact h
  | cons user list ih =>
    obtain ⟨next, hnext, hrest⟩ := bind_eq_ok h
    rw [List.foldlM_cons, addFingerprint_mono hcheck hnext]
    exact ih next hrest

def userOf (inbound : Object) (key : String) : Option Json :=
  ((rows inbound "users").zipIdx.find? (fun user => tableKey inbound user = key)).map Prod.fst

theorem addFingerprint_ok (h : addFingerprint lib inbound check duplicate result user =
    .ok result') :
    tableKey inbound user ∉ result.keys ∧
    result' = result.set (tableKey inbound user) (lib.fingerprint user.1) := by
  unfold addFingerprint at h
  split at h
  · cases h
  split at h
  · cases h
  next hnew =>
    cases h
    exact ⟨hnew, rfl⟩

theorem fingerprints_get? (h : fingerprints lib inbound check duplicate = .ok result)
    (key : String) :
    result.get? key = (userOf inbound key).map lib.fingerprint := by
  have hall : ∀ key, result.get? key =
      ((rows inbound "users").zipIdx.find? (fun user => tableKey inbound user = key)).map
      (fun user => lib.fingerprint user.1) := by
    refine foldlM_ok (motive := fun seen (table : Dict String String) => ∀ key, table.get? key =
      (seen.find? (fun user => tableKey inbound user = key)).map
      (fun user => lib.fingerprint user.1)) ?_ (fun _ => rfl) h
    intro seen table user table' _ hseen hstep key
    obtain ⟨hnew, rfl⟩ := addFingerprint_ok hstep
    rw [Dict.get?_set, List.find?_append]
    by_cases hkey : key = tableKey inbound user
    · have hnone : seen.find? (fun user => tableKey inbound user = key) = none := by
        have hget := hseen key
        rw [hkey, Dict.get?_eq_none.mpr hnew] at hget
        rw [hkey]
        exact Option.map_eq_none_iff.mp hget.symm
      rw [hnone]
      simp [hkey]
    · simp [hkey, Ne.symm hkey, hseen key]
  rw [hall key, userOf, Option.map_map]
  rfl

def Startable (lib : Library) (inbound : Object) : Prop :=
  ∀ required, ∃ users, prepareUsers lib false required inbound = .ok users

theorem map_eq_ok {ε α β : Type} {x : Except ε α} {f : α → β} {b : β} (h : x.map f = .ok b) :
    ∃ a, x = .ok a ∧ f a = b := by
  cases x with
  | error e => cases h
  | ok a => exact ⟨a, rfl, Except.ok.inj h⟩

variable {reloading required : Bool} {users : Dict String String × Bool}

theorem startable_of_prepared (h : prepareUsers lib reloading required inbound = .ok users) :
    Startable lib inbound := by
  intro required'
  unfold prepareUsers at h ⊢
  split at h
  next hkind =>
    rw [if_pos hkind]
    exact ⟨users, h⟩
  next hvless =>
    rw [if_neg hvless]
    split at h
    next hkind =>
      rw [if_pos hkind]
      obtain ⟨table, htable, -⟩ := map_eq_ok h
      refine ⟨(table, true), ?_⟩
      rw [prepareVmess, fingerprints_mono (fun _ _ => by simp) htable]
      rfl
    next hvmess =>
      rw [if_neg hvmess]
      obtain ⟨table, htable, -⟩ := bind_eq_ok h
      rw [prepareSocks, htable]
      simp [require]

theorem prepareUsers_get? (h : prepareUsers lib reloading required inbound = .ok users)
    (key : String) :
    users.1.get? key = (userOf inbound key).map lib.fingerprint := by
  unfold prepareUsers at h
  split at h
  · obtain ⟨table, htable, rfl⟩ := map_eq_ok h
    exact fingerprints_get? htable key
  split at h
  · obtain ⟨table, htable, rfl⟩ := map_eq_ok h
    exact fingerprints_get? htable key
  obtain ⟨table, htable, h⟩ := bind_eq_ok h
  obtain ⟨_, -, h⟩ := bind_eq_ok h
  cases h
  exact fingerprints_get? htable key

theorem planInbounds_ok {oldIn : Dict String Object} {changedNames : List String}
    {list : List (Json × Nat)} {indexes : List Nat}
    (h : planInbounds lib oldIn changedNames list = .ok indexes) :
    indexes = (list.filter (fun entry =>
      inboundChanged oldIn changedNames (entry.1.object?.getD []))).map Prod.snd := by
  induction list generalizing indexes with
  | nil =>
    cases h
    rfl
  | cons entry list ih =>
    obtain ⟨value, index⟩ := entry
    unfold planInbounds at h
    dsimp only at h
    split at h
    next hchanged =>
      obtain ⟨_, -, h⟩ := bind_eq_ok h
      obtain ⟨tail, htail, h⟩ := bind_eq_ok h
      cases h
      rw [List.filter_cons, if_pos hchanged, List.map_cons, ih htail]
    next hsame =>
      rw [List.filter_cons, if_neg hsame]
      exact ih h

section

variable {before after : Object} {plan : UserUpdatePlan} {s : Stages} {tag : String}

theorem tag_of_get?_newIn (h : Accepted lib before after plan s) {inbound : Object}
    (hinbound : s.newIn.get? tag = some inbound) : (text inbound "tag").getD "" = tag := by
  have hmem := Dict.mem_entries_iff.mpr hinbound
  rw [(namedRows_ok h.newIn).1] at hmem
  exact (tag_of_mem_tagged hmem).symm

theorem scanned_entry (h : Accepted lib before after plan s) {old : Object}
    (hold : s.oldIn.get? tag = some old) :
    ∃ scope scope', scanInbound lib s.newIn scope (tag, old) = .ok scope' := by
  have hall : ∀ entry ∈ s.oldIn.entries, ∃ scope scope',
      scanInbound lib s.newIn scope entry = .ok scope' := by
    refine foldlM_ok (motive := fun seen _ => ∀ entry ∈ seen, ∃ scope scope',
      scanInbound lib s.newIn scope entry = .ok scope') ?_ nofun h.scanned
    intro seen scope entry scope' _ hseen hstep found hfound
    obtain hfound | hfound := List.mem_append.mp hfound
    · exact hseen found hfound
    · rw [List.mem_singleton.mp hfound]
      exact ⟨scope, scope', hstep⟩
  exact hall _ (Dict.mem_entries_iff.mpr hold)

theorem same_of_not_changed (h : Accepted lib before after plan s) {next : Object}
    (hnext : s.newIn.get? tag = some next)
    (hchanged : inboundChanged s.oldIn plan.changedNames next ≠ true) :
    s.oldIn.get? tag = some next ∧
    ∀ user ∈ rows next "users", userKey next user ∉ plan.changedNames := by
  rw [ne_eq, inboundChanged, tag_of_get?_newIn h hnext, Bool.or_eq_true, not_or, decide_eq_true_eq,
    not_not] at hchanged
  refine ⟨hchanged.1, fun user huser hname => hchanged.2 (List.any_eq_true.mpr ⟨user, huser, ?_⟩)⟩
  exact decide_eq_true hname

end

section

variable {env : Env} {call : Call} {b b' : Box} {plan : UserUpdatePlan} {s : Stages}
  {changedNames : List String} {m m' : Manager} {updates : List InboundUpdate}
  {inbounds : List Object}

section

variable (h : Accepted env.lib b.config call.updated plan s)
include h

theorem plannedInbounds_eq :
    plannedInbounds call plan = ((rows call.updated "inbounds").map
      (fun value => value.object?.getD [])).filter (inboundChanged s.oldIn plan.changedNames) := by
  rw [plannedInbounds, planInbounds_ok h.inboundIndexes, List.filter_map, ← map_getD_indexes]
  simp only [List.map_map]
  rfl

theorem mem_plannedInbounds {next : Object} : next ∈ plannedInbounds call plan ↔
      ∃ tag, s.newIn.get? tag = some next ∧
      inboundChanged s.oldIn plan.changedNames next = true := by
  obtain ⟨hentries, hobjects⟩ := namedRows_ok h.newIn
  rw [plannedInbounds_eq h, List.mem_filter, exists_and_right]
  simp only [← Dict.mem_entries_iff, hentries, filterMap_tagged hobjects, List.mem_map,
    Prod.mk.injEq]
  refine and_congr_left (fun _ => ⟨?_, ?_⟩)
  · rintro ⟨value, hvalue, heq⟩
    exact ⟨tagOf value, value, hvalue, rfl, heq⟩
  · rintro ⟨_, value, hvalue, -, heq⟩
    exact ⟨value, hvalue, heq⟩

theorem plannedInbounds_nodup :
    ((plannedInbounds call plan).map (fun inbound => (text inbound "tag").getD "")).Nodup := by
  obtain ⟨hentries, hobjects⟩ := namedRows_ok h.newIn
  have hkeys : ((rows call.updated "inbounds").map (fun value => value.object?.getD [])).map
      (fun inbound => (text inbound "tag").getD "") = s.newIn.keys := by
    rw [Dict.keys, hentries, filterMap_tagged hobjects, List.map_map, List.map_map]
    refine List.map_congr_left (fun value hvalue => ?_)
    obtain ⟨⟨row, rfl⟩, -⟩ := hobjects value hvalue
    rfl
  rw [plannedInbounds_eq h]
  refine List.Nodup.sublist (List.filter_sublist.map _) ?_
  rw [hkeys]
  exact s.newIn.nodup

end

theorem prepareInbounds_cons {rest : List Object}
    (h : prepareInbounds env b call changedNames (inbound :: rest) m = .ok (m', updates)) :
    ∃ users updates', supported inbound = true ∧
      prepareUsers env.lib true (b.required ((text inbound "tag").getD "")) inbound = .ok users ∧
      prepareInbounds env b call changedNames rest
      (m.prepare ((text inbound "tag").getD "") users.1 changedNames).1 =
        .ok (m', updates') ∧
      updates = ⟨(m.prepare ((text inbound "tag").getD "") users.1 changedNames).2, users.2⟩ ::
      updates' := by
  obtain ⟨_, hsupported, h⟩ := bind_eq_ok h
  obtain ⟨users, husers, h⟩ := bind_eq_ok h
  split at h
  · cases h
  obtain ⟨⟨manager, updates'⟩, hrest, h⟩ := bind_eq_ok h
  cases h
  refine ⟨users, updates', of_require hsupported, ?_, hrest, rfl⟩
  cases hprepared : prepareUsers env.lib true (b.required ((text inbound "tag").getD ""))
    inbound with
  | error message =>
    rw [hprepared] at husers
    cases husers
  | ok result =>
    rw [hprepared] at husers
    cases husers
    rfl

structure Prepares (lib : Library) (changedNames : List String) (m m' : Manager) (inbound : Object)
    (update : InboundUpdate) : Prop where
  supported : UserReload.supported inbound = true
  table : update.prepared.table = (text inbound "tag").getD ""
  retired : update.prepared.retired =
    Manager.retiredBy (m.tables ((text inbound "tag").getD "")) update.prepared.next
  users : ∃ users : Dict String String,
    (∀ key, users.get? key = (userOf inbound key).map lib.fingerprint) ∧
    m.Preparing ((text inbound "tag").getD "") changedNames users.entries (m', update.prepared.next)

theorem Prepares.extend {lib : Library} {m₀ m'' : Manager} {update : InboundUpdate}
    (h : Prepares lib changedNames m m' inbound update) (hbefore : m₀.Extends m)
    (hafter : m'.Extends m'') :
    Prepares lib changedNames m₀ m'' inbound update := by
  obtain ⟨users, husers, hspec⟩ := h.users
  refine ⟨h.supported, h.table, by rw [h.retired, hbefore.tables], users, husers,
    hbefore.trans (hspec.frame.trans hafter), fun user huser => ?_, hspec.only⟩
  obtain ⟨entry, hentry, hrenewed⟩ := hspec.users user huser
  refine ⟨entry, hentry, ?_⟩
  have hreusable := Manager.reusable_congr hbefore.tables ((text inbound "tag").getD "")
    changedNames user.1 user.2
  obtain hold | ⟨hnone, hfingerprint, hge, hlt, hhome⟩ := hrenewed.extend hafter
  · exact .inl (hreusable ▸ hold)
  · exact .inr ⟨hreusable ▸ hnone, hfingerprint, Nat.le_trans hbefore.allocated hge, hlt, hhome⟩

theorem prepareInbounds_spec (h : prepareInbounds env b call changedNames inbounds m =
    .ok (m', updates)) :
    m.Extends m' ∧ List.Forall₂ (Prepares env.lib changedNames m m') inbounds updates := by
  induction inbounds generalizing m updates with
  | nil =>
    cases h
    exact ⟨.refl _, .nil⟩
  | cons inbound rest ih =>
    obtain ⟨users, updates', hsupported, husers, hrest, rfl⟩ := prepareInbounds_cons h
    have hspec := m.prepare_spec ((text inbound "tag").getD "") users.1 changedNames
    obtain ⟨hextends, hforall⟩ := ih hrest
    refine ⟨hspec.frame.trans hextends,
      .cons ?_ (hforall.imp (fun _ _ hp => hp.extend hspec.frame (.refl m')))⟩
    exact Prepares.extend ⟨hsupported, rfl, rfl, users.1, prepareUsers_get? husers, hspec⟩
      (.refl m) hextends

theorem startable_of_planned (h : prepareInbounds env b call changedNames inbounds m =
    .ok (m', updates)) (hmem : inbound ∈ inbounds) : Startable env.lib inbound := by
  induction inbounds generalizing m updates with
  | nil => cases hmem
  | cons first rest ih =>
    obtain ⟨users, updates', -, husers, hrest, -⟩ := prepareInbounds_cons h
    obtain rfl | hmem := List.mem_cons.mp hmem
    · exact startable_of_prepared husers
    · exact ih hrest hmem

end

end NodeManager.ReloadedInbounds
