import NodeManager.ReloadedInbounds
import NodeManager.SessionRoster

namespace NodeManager.SessionRevocation

open Dictionary JsonValues Outcomes UserReload ReloadPlans RuntimeBox ReloadCases ReloadedOutbounds
  ReloadedInbounds
open Userstate SessionRoster

def userIn (inbounds : List (String × Object)) (tag key : String) : Option (String × Json) :=
  (inbounds.lookup tag).bind (fun inbound =>
    if supported inbound then (userOf inbound key).map (fun user => (userKey inbound user, user))
    else none)

def userAt (config : Object) : String → String → Option (String × Json) :=
  userIn (taggedRows (rows config "inbounds"))

/-- The user is absent from the new configuration, has another entry there, or another policy. -/
def Affected (plan : UserUpdatePlan) (before after : Object) (tag key : String) : Prop :=
  userAt after tag key = none ∨ (userAt after tag key).map Prod.snd ≠
    (userAt before tag key).map Prod.snd ∨
    ∃ user ∈ userAt before tag key, user.1 ∈ plan.changedNames

/-- The old and the new entry of a user have the same fingerprint only if they are the same. -/
def Distinguished (lib : Library) (before after : Object) : Prop :=
  ∀ tag key old next, userAt before tag key = some old → userAt after tag key = some next →
    lib.fingerprint old.2 = lib.fingerprint next.2 → old.2 = next.2

structure Enrolled (lib : Library) (config : Object) (m : Manager) : Prop where
  tracked : Tracked m
  tables : ∀ tag key, ((m.tables tag).get? key).map Entry.fingerprint =
    (userAt config tag key).map (fun user => lib.fingerprint user.2)

theorem validateUser_ok {lib : Library} {kind : Option Json} {seen seen' : Seen} {value : Json}
    (h : validateUser lib kind seen value = .ok seen') :
    ∃ name, name ≠ "" ∧ seen'.names = seen.names ++ [name] ∧
      name = (value.object?.bind (fun row =>
        text row (if kind = some (.str "socks") then "username" else "name"))).getD "" := by
  unfold validateUser at h
  split at h
  · cases h
  next user huser =>
    dsimp only at h
    rw [huser, Option.bind_some]
    generalize (text user (if kind = some (.str "socks") then "username" else "name")).getD
      "" = name at h
    split at h
    · cases h
    split at h
    · cases h
    next hname =>
      rw [not_or] at hname
      split at h
      · cases h
      split at h
      · cases h
      split at h
      · cases h
      cases h
      exact ⟨name, hname.1, rfl, rfl⟩

variable {inbound : Object}

theorem validateUsers_ok {lib : Library} {names : List String}
    (h : validateUsers lib inbound = .ok names) :
    (∀ name ∈ names, name ≠ "") ∧ ∀ user ∈ rows inbound "users", userKey inbound user ∈ names := by
  unfold validateUsers at h
  unfold rows
  split at h
  next hfield =>
    cases h
    rw [hfield]
    exact ⟨nofun, nofun⟩
  next hfield =>
    cases h
    rw [hfield]
    exact ⟨nofun, nofun⟩
  next list hfield =>
    rw [hfield]
    obtain ⟨seen, hseen, rfl⟩ := map_eq_ok h
    refine foldlM_ok (motive := fun users (seen : Seen) => (∀ name ∈ seen.names, name ≠ "") ∧
      ∀ user ∈ users, userKey inbound user ∈ seen.names) ?_ ⟨(by simp), nofun⟩ hseen
    rintro users seen value seen' - ⟨hnonempty, husers⟩ hstep
    obtain ⟨name, hne, hnames, hname⟩ := validateUser_ok hstep
    rw [hnames]
    refine ⟨fun other hother => ?_, fun user huser => ?_⟩
    · obtain hother | hother := List.mem_append.mp hother
      · exact hnonempty other hother
      · rwa [List.mem_singleton.mp hother]
    · obtain huser | huser := List.mem_append.mp huser
      · exact List.mem_append_left _ (husers user huser)
      · rw [List.mem_singleton.mp huser]
        exact List.mem_append_right _ (List.mem_singleton.mpr (by rw [userKey, hname]))
  · cases h

theorem userKey_mem_blockedNames {user : Json} (huser : user ∈ rows inbound "users")
    (h : userKey inbound user ≠ "") :
    userKey inbound user ∈ blockedNames inbound := by
  refine List.mem_flatMap.mpr ⟨user, huser, ?_⟩
  unfold userKey at h ⊢
  cases hrow : user.object? with
  | none => simp [hrow] at h
  | some row =>
    simp only [hrow, Option.bind_some] at h ⊢
    rw [List.mem_append, Option.mem_toList, Option.mem_toList]
    split at h
    next hkind =>
      rw [if_pos hkind]
      cases htext : text row "username" with
      | none => simp [htext] at h
      | some name => exact .inr rfl
    next hkind =>
      rw [if_neg hkind]
      cases htext : text row "name" with
      | none => simp [htext] at h
      | some name => exact .inl rfl

theorem userOf_eq_some {key : String} {user : Json} (h : userOf inbound key = some user) :
    user ∈ rows inbound "users" ∧ (userKey inbound user ≠ "" → key = userKey inbound user) := by
  obtain ⟨⟨user', index⟩, hfind, rfl⟩ := Option.map_eq_some_iff.mp h
  have hkey : tableKey inbound (user', index) = key := by simpa using List.find?_some hfind
  refine ⟨List.fst_mem_of_mem_zipIdx (List.mem_of_find?_eq_some hfind), fun hname => ?_⟩
  rw [← hkey, tableKey, userstateKey, if_pos hname]
  simp

section

variable {lib : Library} {before after : Object} {plan : UserUpdatePlan} {s : Stages}
  {tag key : String}

section

variable (h : Accepted lib before after plan s)
include h

theorem lookup_oldIn (tag : String) :
    (taggedRows (rows before "inbounds")).lookup tag = s.oldIn.get? tag := by
  rw [taggedRows_eq h.oldIn]
  rfl

theorem lookup_newIn (tag : String) :
    (taggedRows (rows after "inbounds")).lookup tag = s.newIn.get? tag := by
  rw [taggedRows_eq h.newIn]
  rfl

theorem changed_name {name : String} (hname : name ∈ plan.changedNames) :
    name ≠ "" ∧ ∀ old ∈ unmanagedInbounds lib before after, name ∉ blockedNames old := by
  rw [h.changedNames] at hname
  have hknown : name ∈ s.scanned.known ∧ name ∉ s.scanned.blocked := by
    have hmem := (List.mem_filter.mp hname).1
    rw [Stages.scope, Scope.settle, List.mem_dedup, List.mem_filter, decide_eq_true_eq] at hmem
    exact hmem
  rw [h.scanned_eq] at hknown
  refine ⟨?_, fun old hold hmem => hknown.2 (List.mem_flatMap.mpr ⟨old, hold, hmem⟩)⟩
  obtain ⟨old, -, hmem⟩ := List.mem_flatMap.mp hknown.1
  have hnonempty (inbound : Object)
      (hin : name ∈ (validateUsers lib inbound).toOption.getD []) : name ≠ "" := by
    cases hvalid : validateUsers lib inbound with
    | error _ =>
      rw [hvalid] at hin
      cases hin
    | ok names =>
      rw [hvalid] at hin
      exact (validateUsers_ok hvalid).1 name hin
  exact (List.mem_append.mp hmem).elim (hnonempty _) (hnonempty _)

theorem managed_of_changed {old next : Object}
    (hold : s.oldIn.get? tag = some old) (hnext : s.newIn.get? tag = some next)
    (hchanged : inboundChanged s.oldIn plan.changedNames next = true) :
    managed lib old next = true := by
  obtain ⟨scope, scope', hscan⟩ := scanned_entry h hold
  obtain ⟨next', hnext', ⟨hunmanaged, rfl, -⟩ | ⟨hs, -, oldNames, newNames, hvalid, hvalid', -⟩⟩ :=
    scanInbound_cases hscan
  · -- an inbound that is left alone has no user that the planner knows
    cases hnext.symm.trans hnext'
    rw [inboundChanged, tag_of_get?_newIn h hnext, hold, Bool.or_eq_true] at hchanged
    obtain hne | huser := hchanged
    · simp at hne
    obtain ⟨user, huser, hname⟩ := List.any_eq_true.mp huser
    obtain ⟨hnonempty, hblocked⟩ := changed_name h (of_decide_eq_true hname)
    refine absurd ?_ (hblocked old ?_)
    · exact userKey_mem_blockedNames huser hnonempty
    have hmem := Dict.mem_entries_iff.mpr hold
    rw [unmanagedInbounds, List.mem_filter, h.successor_eq hmem hnext, hunmanaged, ← h.entries]
    exact ⟨List.mem_map_of_mem hmem, rfl⟩
  · cases hnext.symm.trans hnext'
    simp [managed, hs, hvalid, hvalid', Except.isOk, Except.toBool]

end

theorem userAt_eq_some {config : Object} {user : String × Json}
    (h : userAt config tag key = some user) :
    ∃ inbound, (taggedRows (rows config "inbounds")).lookup tag = some inbound ∧
    supported inbound = true ∧
      userOf inbound key = some user.2 ∧ user.1 = userKey inbound user.2 := by
  obtain ⟨inbound, hinbound, huser⟩ := Option.bind_eq_some_iff.mp h
  split at huser
  next hsupported =>
    obtain ⟨user', huser', rfl⟩ := Option.map_eq_some_iff.mp huser
    exact ⟨inbound, hinbound, hsupported, huser', rfl⟩
  · cases huser

variable {m m' : Manager} {update : InboundUpdate} {entry : Entry}

theorem prepared_fingerprint (h : Prepares lib plan.changedNames m m' inbound update)
    (key : String) :
    (update.prepared.next.get? key).map Entry.fingerprint =
    (userOf inbound key).map lib.fingerprint := by
  obtain ⟨users, husers, hspec⟩ := h.users
  rw [hspec.fingerprint, husers]

theorem reusable_iff {fingerprint : String} {force : List String} {entry' : Entry}
    (h : (m.tables tag).get? key = some entry) :
    m.reusable tag force key fingerprint = some entry' ↔
      entry = entry' ∧ entry.fingerprint = fingerprint ∧ key ∉ force := by
  rw [Manager.reusable, h, Option.filter_eq_some_iff, decide_eq_true_eq, Option.some.injEq]
  refine and_congr_right (fun heq => ?_)
  rw [heq]

theorem identity_kept_iff (h : Prepares lib plan.changedNames m m' inbound update)
    (hroster : Roster m) (htag : (text inbound "tag").getD "" = tag)
    (hentry : (m.tables tag).get? key = some entry) :
    (update.prepared.next.get? key).map Entry.identity = some entry.identity ↔
      (userOf inbound key).map lib.fingerprint = some entry.fingerprint ∧
      key ∉ plan.changedNames := by
  obtain ⟨users, husers, hspec⟩ := h.users
  rw [htag] at hspec
  constructor
  · intro hkept
    obtain ⟨entry', hentry', heq⟩ := Option.map_eq_some_iff.mp hkept
    obtain ⟨fingerprint, hget⟩ := Dict.mem_keys_iff.mp (hspec.only key entry' hentry')
    obtain ⟨entry'', hentry'', hrenewed⟩ := hspec.users _ (Dict.mem_entries_iff.mpr hget)
    cases hentry'.symm.trans hentry''
    obtain hold | ⟨-, -, hge, -⟩ := hrenewed
    · obtain ⟨-, hsame, hpolicy⟩ := (reusable_iff hentry).mp hold
      rw [← husers key, hget, hsame]
      exact ⟨rfl, hpolicy⟩
    · have hlt := (hroster.sound.tables tag key entry hentry).2.2
      exact absurd (heq ▸ hge) (Nat.not_le.mpr hlt)
  · rintro ⟨hsame, hpolicy⟩
    rw [← husers key] at hsame
    obtain ⟨entry', hentry', hrenewed⟩ := hspec.users _ (Dict.mem_entries_iff.mpr hsame)
    have hreusable := (reusable_iff hentry).mpr ⟨rfl, rfl, hpolicy⟩
    obtain hold | ⟨hnone, -⟩ := hrenewed
    · cases hreusable.symm.trans hold
      rw [hentry', Option.map_some]
    · cases hreusable.symm.trans hnone

end

theorem forall₂_left {α β : Type} {R : α → β → Prop} {as : List α} {bs : List β}
    (h : List.Forall₂ R as bs) {a : α} (ha : a ∈ as) : ∃ b ∈ bs, R a b := by
  induction h with
  | nil => cases ha
  | cons hab _ ih =>
    obtain rfl | ha := List.mem_cons.mp ha
    · exact ⟨_, List.mem_cons_self, hab⟩
    · obtain ⟨b, hb, hab⟩ := ih ha
      exact ⟨b, List.mem_cons_of_mem _ hb, hab⟩

section

variable {env : Env} {call : Call} {b b' : Box} {plan : UserUpdatePlan} {users : Manager}
  {updates : List InboundUpdate} {p : RuleSnapshots.PreparedRules}
  {outbounds : OutboundManager.Manager} {prepared : List OutboundManager.Outbound} {s : Stages}
  {seen : List (String × Object)} {entry : String × Object}

structure Preparations (env : Env) (call : Call) (b : Box) (plan : UserUpdatePlan) (s : Stages)
    (users : Manager) (updates : List InboundUpdate) : Prop where
  frame : b.users.Extends users
  planned : ∀ tag next, s.newIn.get? tag = some next →
    inboundChanged s.oldIn plan.changedNames next = true →
    ∃ update ∈ updates, Prepares env.lib plan.changedNames b.users users next update
  only : ∀ update ∈ updates, ∃ tag next, s.newIn.get? tag = some next ∧
    inboundChanged s.oldIn plan.changedNames next = true ∧ update.prepared.table = tag ∧
    Prepares env.lib plan.changedNames b.users users next update
  nodup : ((updates.map InboundUpdate.prepared).map Prepared.table).Nodup

theorem preparations (hs : Accepted env.lib b.config call.updated plan s)
    (hplanned : Planned env call b plan users updates) :
    Preparations env call b plan s users updates := by
  obtain ⟨hframe, hforall⟩ := prepareInbounds_spec hplanned.inbounds
  refine ⟨hframe, fun tag next hnext hchanged => ?_, fun update hupdate => ?_, ?_⟩
  · exact forall₂_left hforall ((mem_plannedInbounds hs).mpr ⟨tag, hnext, hchanged⟩)
  · obtain ⟨next, hmem, hprepares⟩ := forall₂_left hforall.flip hupdate
    obtain ⟨tag, hnext, hchanged⟩ := (mem_plannedInbounds hs).mp hmem
    exact ⟨tag, next, hnext, hchanged,
      hprepares.table.trans (tag_of_get?_newIn hs hnext), hprepares⟩
  have htables : (updates.map InboundUpdate.prepared).map Prepared.table =
      (plannedInbounds call plan).map (fun inbound => (text inbound "tag").getD "") := by
    symm
    rw [List.map_map, ← List.forall₂_eq_eq_eq, List.forall₂_map_left_iff,
      List.forall₂_map_right_iff]
    exact hforall.imp (fun _ _ h => h.table.symm)
  rw [htables]
  exact plannedInbounds_nodup hs

theorem Preparations.fitting (h : Preparations env call b plan s users updates)
    (hroster : Roster b.users) (q : Prepared) (hq : q ∈ updates.map InboundUpdate.prepared) :
    Fitting users q := by
  obtain ⟨update, hupdate, rfl⟩ := List.mem_map.mp hq
  obtain ⟨tag, next, hnext, -, htable, hprepares⟩ := h.only update hupdate
  obtain ⟨fingerprints, -, hspec⟩ := hprepares.users
  have hfitting := fitting_of_preparing hroster.sound hspec
  rwa [← hprepares.retired, ← hprepares.table] at hfitting

theorem Enrolled.committed (h : Enrolled env.lib b.config b.users)
    (hs : Accepted env.lib b.config call.updated plan s)
    (hp : Preparations env call b plan s users updates)
    (hcommitted : Committed users (users.commit (updates.map InboundUpdate.prepared))
    (updates.map InboundUpdate.prepared)) :
    Enrolled env.lib call.updated (users.commit (updates.map InboundUpdate.prepared)) := by
  refine ⟨hcommitted.tracked, fun tag key => ?_⟩
  by_cases hplanned : tag ∈ (updates.map InboundUpdate.prepared).map Prepared.table
  · obtain ⟨q, hq, rfl⟩ := List.mem_map.mp hplanned
    obtain ⟨update, hupdate, rfl⟩ := List.mem_map.mp hq
    obtain ⟨tag, next, hnext, -, rfl, hprepares⟩ := hp.only update hupdate
    rw [hcommitted.next _ hq, prepared_fingerprint hprepares, userAt, userIn, lookup_newIn hs,
      hnext, Option.bind_some, if_pos hprepares.supported, Option.map_map]
    rfl
  · have hsame : userAt call.updated tag key = userAt b.config tag key := by
      rw [userAt, userIn, userAt, userIn, lookup_newIn hs, lookup_oldIn hs]
      cases hnext : s.newIn.get? tag with
      | none =>
        cases hold : s.oldIn.get? tag with
        | none => rfl
        | some old =>
          obtain ⟨_, _, hscan⟩ := scanned_entry hs hold
          obtain ⟨next, hnext', -⟩ := scanInbound_cases hscan
          cases hnext.symm.trans hnext'
      | some next =>
        have hchanged : inboundChanged s.oldIn plan.changedNames next ≠ true := by
          intro hchanged
          obtain ⟨update, hupdate, hprepares⟩ := hp.planned tag next hnext hchanged
          refine hplanned (List.mem_map.mpr ⟨update.prepared, List.mem_map_of_mem hupdate, ?_⟩)
          rw [hprepares.table, tag_of_get?_newIn hs hnext]
        rw [(same_of_not_changed hs hnext hchanged).1]
    rw [hcommitted.other tag hplanned, hp.frame.tables, hsame]
    exact h.tables tag key

theorem retired_iff_affected (h : Enrolled env.lib b.config b.users)
    (hs : Accepted env.lib b.config call.updated plan s)
    (hp : Preparations env call b plan s users updates)
    (hdistinct : Distinguished env.lib b.config call.updated) {tag key : String} {entry : Entry}
    (hentry : (b.users.tables tag).get? key = some entry) :
    entry.identity ∈ (updates.map InboundUpdate.prepared).flatMap Prepared.retired ↔
      Affected plan b.config call.updated tag key := by
  have hroster := (h.tracked.extend hp.frame).roster
  have hentry' : (users.tables tag).get? key = some entry := by rw [hp.frame.tables, hentry]
  have hmem : entry.identity ∈ (updates.map InboundUpdate.prepared).flatMap Prepared.retired ↔
      ∃ update ∈ updates, tag = update.prepared.table ∧
        (update.prepared.next.get? key).map Entry.identity ≠ some entry.identity := by
    rw [List.flatMap_map, List.mem_flatMap]
    refine exists_congr (fun update => and_congr_right (fun hupdate => ?_))
    exact hroster.mem_retired (hp.fitting h.tracked.roster _ (List.mem_map_of_mem hupdate)) hentry'
  -- the user that the identity belongs to
  have htables := h.tables tag key
  rw [hentry, Option.map_some] at htables
  obtain ⟨⟨name, user⟩, huser, hfingerprint⟩ := Option.map_eq_some_iff.mp htables.symm
  obtain ⟨old, hold, -, hof, hname⟩ := userAt_eq_some huser
  dsimp only at hfingerprint hof hname
  rw [lookup_oldIn hs] at hold
  obtain ⟨_, _, hscan⟩ := scanned_entry hs hold
  obtain ⟨next, hnext, -⟩ := scanInbound_cases hscan
  by_cases hchanged : inboundChanged s.oldIn plan.changedNames next = true
  · obtain ⟨update, hupdate, hprepares⟩ := hp.planned tag next hnext hchanged
    have htag := tag_of_get?_newIn hs hnext
    -- a managed inbound has named users, so that the key is the name
    have hkey : key = name := by
      have hmanaged := managed_of_changed hs hold hnext hchanged
      obtain ⟨hin, heq⟩ := userOf_eq_some hof
      rw [hname]
      refine heq ?_
      cases hvalid : validateUsers env.lib old with
      | error _ => simp [managed, hvalid, Except.isOk, Except.toBool] at hmanaged
      | ok names => exact (validateUsers_ok hvalid).1 _ ((validateUsers_ok hvalid).2 user hin)
    have hkept := identity_kept_iff hprepares h.tracked.roster htag hentry
    have hretired : entry.identity ∈ (updates.map InboundUpdate.prepared).flatMap Prepared.retired ↔
        ¬((userOf next key).map env.lib.fingerprint = some entry.fingerprint ∧
          key ∉ plan.changedNames) := by
      rw [hmem, ← hkept]
      refine ⟨?_, fun hne => ⟨update, hupdate, by rw [hprepares.table, htag], hne⟩⟩
      rintro ⟨update', hupdate', htable, hne⟩
      obtain ⟨tag', next', hnext', -, htable', hprepares'⟩ := hp.only update' hupdate'
      obtain rfl : tag = tag' := htable.trans htable'
      cases hnext.symm.trans hnext'
      rw [hkept, ← identity_kept_iff hprepares' h.tracked.roster htag hentry]
      exact hne
    have hafter : userAt call.updated tag key =
        (userOf next key).map (fun user => (userKey next user, user)) := by
      rw [userAt, userIn, lookup_newIn hs, hnext, Option.bind_some, if_pos hprepares.supported]
    rw [hretired, Affected, huser, hafter]
    cases hfound : userOf next key with
    | none => simp
    | some user' =>
      have hentries : env.lib.fingerprint user' = entry.fingerprint ↔ user' = user := by
        rw [← hfingerprint]
        refine ⟨fun heq => ?_, fun heq => by rw [heq]⟩
        have hafter' := hafter
        rw [hfound] at hafter'
        exact (hdistinct tag key _ _ huser hafter' heq.symm).symm
      simp [hentries, hkey, imp_iff_not_or]
  · obtain ⟨hsame, hnames⟩ := same_of_not_changed hs hnext hchanged
    cases hold.symm.trans hsame
    have hafter : userAt call.updated tag key = userAt b.config tag key := by
      rw [userAt, userIn, userAt, userIn, lookup_newIn hs, lookup_oldIn hs, hnext, hold]
    rw [hmem, Affected, hafter, huser]
    refine iff_of_false ?_ ?_
    · rintro ⟨update, hupdate, htable, -⟩
      obtain ⟨tag', next', hnext', hchanged', htable', -⟩ := hp.only update hupdate
      obtain rfl : tag = tag' := htable.trans htable'
      cases hnext.symm.trans hnext'
      exact hchanged hchanged'
    · have hnot : name ∉ plan.changedNames := hname ▸ hnames user (userOf_eq_some hof).1
      simp [hnot]

theorem Enrolled.reload (h : Enrolled env.lib b.config b.users)
    (hreload : AcceptedReload env call b b' plan users updates p outbounds prepared) :
    Enrolled env.lib call.updated b'.users ∧ (Distinguished env.lib b.config call.updated →
      ∀ token handle, (token, handle) ∈ b.users.sessions →
        ((b'.users.session handle).closed = true ↔
          Affected plan b.config call.updated (b.users.home token).1 (b.users.home token).2) ∧
        (¬Affected plan b.config call.updated (b.users.home token).1 (b.users.home token).2 →
          (token, handle) ∈ b'.users.sessions ∧ b'.users.valid token = true)) := by
  obtain ⟨s, hs⟩ := accepted hreload.planned.decided
  have hp := preparations hs hreload.planned
  have htracked := h.tracked.extend hp.frame
  have hcommitted := htracked.commit hp.nodup (hp.fitting h.tracked.roster)
  rw [hreload.result]
  refine ⟨h.committed hs hp hcommitted, fun hdistinct token handle hsession => ?_⟩
  obtain ⟨table, name, entry, hentry, rfl⟩ :=
    (h.tracked.roster.valid token).mp (h.tracked.sessions token handle hsession)
  rw [h.tracked.roster.home hentry, ← retired_iff_affected h hs hp hdistinct hentry]
  have hsession' : (entry.identity, handle) ∈ users.sessions := by rwa [hp.frame.sessions]
  exact ⟨hcommitted.closed _ _ hsession', hcommitted.kept _ _ hsession'⟩

structure EnrolledIn (lib : Library) (inbounds : List (String × Object)) (m : Manager) : Prop where
  tracked : Tracked m
  tables : ∀ tag key, ((m.tables tag).get? key).map Entry.fingerprint =
    (userIn inbounds tag key).map (fun user => lib.fingerprint user.2)

theorem userIn_append (hnew : entry.1 ∉ seen.map Prod.fst) (tag key : String) :
    userIn (seen ++ [entry]) tag key =
      if tag = entry.1 then
        if supported entry.2 then
          (userOf entry.2 key).map (fun user => (userKey entry.2 user, user))
        else none
      else userIn seen tag key := by
  rw [userIn, List.lookup_append]
  split
  next htag =>
    subst htag
    have hself : [entry].lookup entry.1 = some entry.2 := List.lookup_cons_self
    rw [Dict.lookup_eq_none.mpr hnew, hself, Option.none_or, Option.bind_some]
  next htag =>
    have hnone : [entry].lookup tag = none := by simp [htag]
    rw [hnone, Option.or_none, userIn]

theorem newInbound_enrolled {state state' : Manager × (String → Bool)}
    (henrolled : EnrolledIn env.lib seen state.1) (hnew : entry.1 ∉ seen.map Prod.fst)
    (h : newInbound env.lib state entry = .ok state') :
    EnrolledIn env.lib (seen ++ [entry]) state'.1 := by
  unfold newInbound at h
  split at h
  next hsupported =>
    obtain ⟨users, husers, h⟩ := bind_eq_ok h
    cases h
    have hspec := Manager.prepare_spec state.1 entry.1 users.1 []
    have hcommitted := (henrolled.tracked.extend hspec.frame).commit
      (show ([(state.1.prepare entry.1 users.1 []).2].map Prepared.table).Nodup
        from List.nodup_singleton _)
      (fun p hp => by
        rw [List.mem_singleton.mp hp]
        exact fitting_of_preparing henrolled.tracked.roster.sound hspec)
    refine ⟨hcommitted.tracked, fun tag key => ?_⟩
    rw [userIn_append hnew]
    by_cases htag : tag = entry.1
    · have hnext := hcommitted.next _ (List.mem_singleton_self _)
      rw [if_pos htag, htag]
      refine (congrArg (fun table => (Dict.get? table key).map Entry.fingerprint) hnext).trans ?_
      rw [if_pos hsupported, hspec.fingerprint, prepareUsers_get? husers, Option.map_map]
      rfl
    · have hother := hcommitted.other tag (by simpa [Manager.prepare] using htag)
      rw [if_neg htag]
      refine (congrArg (fun table => (Dict.get? table key).map Entry.fingerprint) hother).trans ?_
      rw [hspec.frame.tables]
      exact henrolled.tables tag key
  next hsupported =>
    cases h
    refine ⟨henrolled.tracked, fun tag key => ?_⟩
    rw [userIn_append hnew]
    by_cases htag : tag = entry.1
    · have hnone : userIn seen tag key = none := by
        rw [userIn, htag, Dict.lookup_eq_none.mpr hnew, Option.bind_none]
      rw [henrolled.tables, hnone, if_pos htag, if_neg hsupported]
    · rw [if_neg htag]
      exact henrolled.tables tag key

theorem start_enrolled {instanceId : String} {config : Object}
    (h : start env instanceId config = .ok b) :
    Enrolled env.lib b.config b.users := by
  obtain ⟨_, hoptions, h⟩ := bind_eq_ok h
  obtain ⟨users, husers, h⟩ := bind_eq_ok h
  obtain ⟨outbounds, -, h⟩ := bind_eq_ok h
  cases h
  have hnodup : (effectiveTags (rows config "inbounds")).Nodup := by
    have hchecked := of_require hoptions
    rw [checkOptions, Bool.and_eq_true, decide_eq_true_eq] at hchecked
    exact hchecked.1
  have hall : ((taggedRows (rows config "inbounds")).map Prod.fst).Nodup →
      EnrolledIn env.lib (taggedRows (rows config "inbounds")) users.1 := by
    refine foldlM_ok (motive := fun seen (state : Manager × (String → Bool)) =>
      (seen.map Prod.fst).Nodup →
      EnrolledIn env.lib seen state.1) ?_ ?_ husers
    · intro seen state entry state' _ hseen hstep hnodup
      rw [List.map_append, List.nodup_append] at hnodup
      exact newInbound_enrolled (hseen hnodup.1)
        (fun hmem => hnodup.2.2 _ hmem _ (List.mem_singleton_self _) rfl) hstep
    intro _
    refine ⟨⟨⟨⟨by simp, by simp, by simp⟩, fun token => ?_⟩, by simp⟩, fun tag key => rfl⟩
    refine ⟨by simp, ?_⟩
    rintro ⟨_, _, _, hentry, -⟩
    cases hentry
  exact ⟨(hall hnodup).tracked, (hall hnodup).tables⟩

theorem Enrolled.step (h : Enrolled env.lib b.config b.users) (action : Action) :
    Enrolled env.lib (RuntimeBox.step env action b).config
    (RuntimeBox.step env action b).users := by
  cases action with
  | reload call =>
    by_cases haccepted : (reloadUsers env call b).2 = .accepted
    · obtain ⟨plan, users, updates, p, outbounds, prepared, hreload⟩ := accepted_cases haccepted
      have hconfig : (reloadUsers env call b).1.config = call.updated := by
        rw [hreload.result, publishReload]
      change Enrolled env.lib (reloadUsers env call b).1.config _
      rw [hconfig]
      exact (h.reload hreload).1
    · obtain ⟨rules, outbounds, hsame⟩ := rejected_same haccepted
      change Enrolled env.lib (reloadUsers env call b).1.config (reloadUsers env call b).1.users
      rw [hsame]
      exact h
  | lease acquisition => exact h
  | newSession =>
    exact ⟨⟨⟨⟨h.tracked.roster.sound.registered, nofun, h.tracked.roster.sound.tables⟩,
      h.tracked.roster.valid⟩, h.tracked.sessions⟩, h.tables⟩
  | bind handle token =>
    simp only [RuntimeBox.step]
    split
    next hvalid =>
      refine ⟨h.tracked.bind handle hvalid, fun tag key => ?_⟩
      have htables : (b.users.bind handle token).1.tables = b.users.tables := by
        obtain heq | ⟨-, heq⟩ := Admission.bind_cases b.users handle token <;> rw [heq]
        rfl
      rw [htables]
      exact h.tables tag key
    · exact h
  | closeSession handle =>
    refine ⟨h.tracked.close handle, fun tag key => ?_⟩
    change (((b.users.close handle).tables tag).get? key).map _ = _
    rw [(Admission.close_same b.users handle).2.1]
    exact h.tables tag key

theorem Enrolled.run (h : Enrolled env.lib b.config b.users) (actions : List Action) :
    Enrolled env.lib (Runs.run (RuntimeBox.step env) actions b).config
    (Runs.run (RuntimeBox.step env) actions b).users := by
  induction actions generalizing b with
  | nil => exact h
  | cons action actions ih => exact ih (h.step action)

/-- An accepted reload closes the sessions of the users it affects; others stay registered and
valid. -/
theorem affected_sessions_closed {instanceId : String} {config : Object} {b₀ : Box}
    (hstart : start env instanceId config = .ok b₀) (actions : List Action)
    (hrun : Runs.run (RuntimeBox.step env) actions b₀ = b)
    (haccepted : (reloadUsers env call b).2 = .accepted)
    (hdistinct : Distinguished env.lib b.config call.updated) :
    ∃ plan, planUserUpdate env.lib b.config call.updated = .ok plan ∧
      ∀ token handle, (token, handle) ∈ b.users.sessions →
        (((reloadUsers env call b).1.users.session handle).closed = true ↔
          Affected plan b.config call.updated (b.users.home token).1 (b.users.home token).2) ∧
        (¬Affected plan b.config call.updated (b.users.home token).1 (b.users.home token).2 →
          (token, handle) ∈ (reloadUsers env call b).1.users.sessions ∧
            (reloadUsers env call b).1.users.valid token = true) := by
  subst hrun
  have henrolled := (start_enrolled hstart).run actions
  obtain ⟨plan, users, updates, p, outbounds, prepared, hreload⟩ := accepted_cases haccepted
  exact ⟨plan, hreload.planned.decided, (henrolled.reload hreload).2 hdistinct⟩

end

def vlessUser (name uuid : String) : Json := .obj [("name", .str name), ("uuid", .str uuid)]

def vlessOf (users : List Json) : Object :=
  [("inbounds", .arr [.obj [("tag", .str "vless-in"), ("type", .str "vless"),
    ("users", .arr users)]]), ("outbounds", .arr [.obj [("tag", .str "direct"),
    ("type", .str "direct")]])]

def aliceAndBob : Object := vlessOf [vlessUser "alice" "5f3c", vlessUser "bob" "a1d0"]

def onlyBob : Object := vlessOf [vlessUser "bob" "a1d0"]

def vlessEnv : Env where
  lib := ⟨id, fun value => if value = vlessUser "bob" "a1d0" then "bob"
    else if value = .obj onlyBob then "after" else ""⟩
  dependencies _ := []

theorem distinguished_onlyBob : Distinguished vlessEnv.lib aliceAndBob onlyBob := by
  intro tag key old next _ hnext hsame
  obtain ⟨inbound, hinbound, -, huser, -⟩ := userAt_eq_some hnext
  have hbob : next.2 = vlessUser "bob" "a1d0" := by
    obtain ⟨before, after, hsplit, -⟩ := List.lookup_eq_some_iff.mp hinbound
    have hrow : (tag, inbound) ∈ taggedRows (rows onlyBob "inbounds") := by simp [hsplit]
    obtain ⟨rfl, rfl⟩ := Prod.mk.inj (List.mem_singleton.mp hrow)
    exact List.mem_singleton.mp (userOf_eq_some huser).1
  have hafter : vlessEnv.lib.fingerprint next.2 = "bob" := by rw [hbob]; rfl
  rw [hafter] at hsame
  rw [hbob]
  by_contra hne
  have hold : vlessEnv.lib.fingerprint old.2 = if old.2 = .obj onlyBob then "after"
    else "" := if_neg hne
  rw [hold] at hsame
  split at hsame <;> simp at hsame

/-- alice and bob are connected, and alice is removed. -/
theorem removed_user_revoked : ∃ b₀ b, start vlessEnv "" aliceAndBob = .ok b₀ ∧
    Runs.run (RuntimeBox.step vlessEnv) [.newSession, .newSession, .bind 0 0, .bind 1 1] b₀ = b ∧
      b.users.sessions = [(0, 0), (1, 1)] ∧
      (reloadUsers vlessEnv { updated := onlyBob } b).2 = .accepted ∧
        ∃ plan, planUserUpdate vlessEnv.lib b.config onlyBob = .ok plan ∧
          ∀ token handle, (token, handle) ∈ b.users.sessions →
            (((reloadUsers vlessEnv { updated := onlyBob } b).1.users.session
              handle).closed = true ↔
              Affected plan b.config onlyBob (b.users.home token).1 (b.users.home token).2) ∧
            (¬Affected plan b.config onlyBob (b.users.home token).1 (b.users.home token).2 →
              (token, handle) ∈ (reloadUsers vlessEnv { updated := onlyBob } b).1.users.sessions ∧
                (reloadUsers vlessEnv { updated := onlyBob } b).1.users.valid token = true) :=
  ⟨_, _, rfl, rfl, by decide +kernel, by decide +kernel,
    @affected_sessions_closed vlessEnv { updated := onlyBob } _ "" aliceAndBob _ rfl
      [.newSession, .newSession, .bind 0 0, .bind 1 1] rfl (by decide +kernel)
      distinguished_onlyBob⟩

end NodeManager.SessionRevocation
