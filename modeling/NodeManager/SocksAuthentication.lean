import NodeManager.ColdStart

namespace NodeManager.SocksAuthentication

open Dictionary JsonValues Outcomes Runs UserReload ReloadPlans RuntimeBox ReloadCases
  ReloadedOutbounds ReloadedInbounds

def isSocks (inbound : Object) : Bool := field inbound "type" = some (.str "socks")

def asksForUsers (inbound : Object) : Bool :=
  field inbound "require_auth" = some (.bool true) || rows inbound "users" ≠ []

def inboundRows (config : Object) : List (String × Object) := taggedRows (rows config "inbounds")

def RequiresAuth (b : Box) (tag : String) : Prop :=
  (∃ inbound, (tag, inbound) ∈ inboundRows b.config ∧ isSocks inbound = true) ∧
    b.required tag = true

def Stored (b : Box) : Prop :=
  ∀ entry ∈ inboundRows b.config, isSocks entry.2 = true → b.required entry.1 = asksForUsers entry.2

section

variable {lib : Library} {reloading required : Bool} {inbound : Object}
  {users : Dict String String × Bool}

theorem supported_of_isSocks (h : isSocks inbound = true) : supported inbound = true := by
  rw [supported, of_decide_eq_true h]
  decide

theorem prepareUsers_required (h : prepareUsers lib reloading required inbound = .ok users)
    (hrequired : required = true) :
    users.2 = true := by
  unfold prepareUsers at h
  split at h
  · obtain ⟨table, -, rfl⟩ := map_eq_ok h
    rfl
  split at h
  · obtain ⟨table, -, rfl⟩ := map_eq_ok h
    rfl
  obtain ⟨table, -, h⟩ := bind_eq_ok h
  obtain ⟨_, -, h⟩ := bind_eq_ok h
  cases h
  simp [hrequired]

theorem prepareUsers_socks (h : prepareUsers lib reloading required inbound = .ok users)
    (hsocks : isSocks inbound = true) (hstart : reloading = false → required = false) :
    users.2 = asksForUsers inbound := by
  have htype := of_decide_eq_true hsocks
  rw [prepareUsers, htype, if_neg (by decide), if_neg (by decide)] at h
  obtain ⟨table, -, h⟩ := bind_eq_ok h
  obtain ⟨_, hsafe, h⟩ := bind_eq_ok h
  cases h
  have hsafe := of_require hsafe
  cases reloading with
  | false => simp [asksForUsers, hstart rfl]
  | true =>
    rw [Bool.eq_iff_iff]
    simp only [asksForUsers, decide_eq_true_eq, Bool.or_eq_true]
    tauto

end

section

variable {env : Env} {call : Call} {b : Box} {plan : UserUpdatePlan} {s : Stages}
  {updates : List InboundUpdate}

def tagText (inbound : Object) : String := (text inbound "tag").getD ""

theorem setRequired_spec {changedNames : List String} {inbounds : List Object}
    {m m' : Userstate.Manager} (h : prepareInbounds env b call changedNames inbounds m =
      .ok (m', updates))
    (hnodup : (inbounds.map tagText).Nodup) (required : String → Bool) :
    (∀ inbound ∈ inbounds, ∃ users,
      prepareUsers env.lib true (b.required (tagText inbound)) inbound = .ok users ∧
        setRequired required updates (tagText inbound) = users.2) ∧
      ∀ tag ∉ inbounds.map tagText, setRequired required updates tag = required tag := by
  induction inbounds generalizing m updates required with
  | nil =>
    cases h
    exact ⟨nofun, fun _ _ => rfl⟩
  | cons first rest ih =>
    obtain ⟨users, updates', -, husers, hrest, rfl⟩ := prepareInbounds_cons h
    rw [List.map_cons, List.nodup_cons] at hnodup
    obtain ⟨hprepared, hother⟩ := ih hrest hnodup.2
      (Function.update required (tagText first) users.2)
    refine ⟨fun inbound hmem => ?_, fun tag htag => ?_⟩
    · obtain rfl | hmem := List.mem_cons.mp hmem
      · exact ⟨users, husers, (hother _ hnodup.1).trans (Function.update_self ..)⟩
      · exact hprepared inbound hmem
    · rw [List.map_cons, List.mem_cons, not_or] at htag
      exact (hother tag htag.2).trans (Function.update_of_ne htag.1 ..)

theorem socks_kept (h : Accepted env.lib b.config call.updated plan s) {tag : String}
    {inbound : Object} (hinbound : s.oldIn.get? tag = some inbound)
    (hsocks : isSocks inbound = true) :
    ∃ next, s.newIn.get? tag = some next ∧ isSocks next = true := by
  obtain ⟨_, _, hscan⟩ := scanned_entry h hinbound
  obtain ⟨next, hnext, hcases⟩ := scanInbound_cases hscan
  refine ⟨next, hnext, ?_⟩
  obtain ⟨-, rfl, -⟩ | ⟨-, hbase, -⟩ := hcases
  · exact hsocks
  have htype : "type" ∉ mutableKeys inbound := by
    rw [mutableKeys]
    split <;> decide
  rw [isSocks, ← field_without htype, ← hbase, field_without htype]
  exact hsocks

theorem required_after (h : Accepted env.lib b.config call.updated plan s)
    {users : Userstate.Manager} (hplanned : Planned env call b plan users updates) {tag : String}
    {next : Object} (hnext : s.newIn.get? tag = some next) :
    (∃ flags, prepareUsers env.lib true (b.required tag) next = .ok flags ∧
      setRequired b.required updates tag = flags.2) ∨
      s.oldIn.get? tag = some next ∧ setRequired b.required updates tag = b.required tag := by
  obtain ⟨hprepared, hother⟩ := setRequired_spec hplanned.inbounds
    (plannedInbounds_nodup h) b.required
  have htag := tag_of_get?_newIn h hnext
  by_cases hchanged : inboundChanged s.oldIn plan.changedNames next = true
  · have hflags := hprepared next ((mem_plannedInbounds h).mpr ⟨tag, hnext, hchanged⟩)
    rw [tagText, htag] at hflags
    exact .inl hflags
  refine .inr ⟨(same_of_not_changed h hnext hchanged).1, hother tag (fun hmem => ?_)⟩
  obtain ⟨other, hother, rfl⟩ := List.mem_map.mp hmem
  obtain ⟨tag', hget, hchanged'⟩ := (mem_plannedInbounds h).mp hother
  rw [tagText, tag_of_get?_newIn h hget, hget] at hnext
  cases hnext
  exact hchanged hchanged'

end

section

variable {env : Env} {b : Box}

theorem reload_spec (hstored : Stored b) (call : Call) :
    Stored (reloadUsers env call b).1 ∧ ∀ tag, RequiresAuth b tag →
    RequiresAuth (reloadUsers env call b).1 tag := by
  by_cases haccepted : (reloadUsers env call b).2 = .accepted
  · obtain ⟨plan, users, updates, p, outbounds, prepared, hreload⟩ := accepted_cases haccepted
    obtain ⟨s, hs⟩ := accepted hreload.planned.decided
    have hnew : inboundRows call.updated = s.newIn.entries := taggedRows_eq hs.newIn
    have hold : inboundRows b.config = s.oldIn.entries := taggedRows_eq hs.oldIn
    rw [hreload.result]
    refine ⟨fun entry hentry hsocks => ?_, fun tag htag => ?_⟩
    · have hnext : s.newIn.get? entry.1 = some entry.2 := Dict.mem_entries_iff.mp (hnew ▸ hentry)
      obtain ⟨flags, hflags, hset⟩ | ⟨hkept, hset⟩ := required_after hs hreload.planned hnext
      · exact hset.trans (prepareUsers_socks hflags hsocks nofun)
      · exact hset.trans (hstored entry (hold ▸ Dict.mem_entries_iff.mpr hkept) hsocks)
    obtain ⟨⟨inbound, hmem, hsocks⟩, hrequired⟩ := htag
    obtain ⟨next, hnext, hnextSocks⟩ := socks_kept hs (Dict.mem_entries_iff.mp (hold ▸ hmem)) hsocks
    refine ⟨⟨next, (hnew ▸ Dict.mem_entries_iff.mpr hnext : (tag, next) ∈ inboundRows call.updated),
      hnextSocks⟩, ?_⟩
    obtain ⟨flags, hflags, hset⟩ | ⟨-, hset⟩ := required_after hs hreload.planned hnext
    · exact hset.trans (prepareUsers_required hflags hrequired)
    · exact hset.trans hrequired
  · obtain ⟨rules, outbounds, hsame⟩ := rejected_same haccepted
    rw [hsame]
    exact ⟨hstored, fun _ htag => htag⟩

theorem step_spec (hstored : Stored b) (action : Action) :
    Stored (step env action b) ∧ ∀ tag, RequiresAuth b tag →
    RequiresAuth (step env action b) tag := by
  cases action with
  | reload call => exact reload_spec hstored call
  | lease | newSession | closeSession => exact ⟨hstored, fun _ htag => htag⟩
  | bind handle token =>
    simp only [step]
    split <;> exact ⟨hstored, fun _ htag => htag⟩

theorem run_spec (hstored : Stored b) (actions : List Action) : Stored (run (step env) actions b) ∧
    ∀ tag, RequiresAuth b tag → RequiresAuth (run (step env) actions b) tag := by
  induction actions generalizing b with
  | nil => exact ⟨hstored, fun _ htag => htag⟩
  | cons action actions ih =>
    obtain ⟨hnext, hsticks⟩ := @step_spec env b hstored action
    obtain ⟨hend, hlater⟩ := ih hnext
    exact ⟨hend, fun tag htag => hlater tag (hsticks tag htag)⟩

theorem start_stored {instanceId : String} {config : Object}
    (h : start env instanceId config = .ok b) :
    Stored b ∧ b.config = config := by
  obtain ⟨_, hoptions, h⟩ := bind_eq_ok h
  obtain ⟨users, husers, h⟩ := bind_eq_ok h
  obtain ⟨outbounds, -, h⟩ := bind_eq_ok h
  cases h
  have htags := of_require hoptions
  rw [checkOptions, Bool.and_eq_true, decide_eq_true_eq] at htags
  -- an inbound that was not reached yet has no flag, since the tags are distinct
  have hfold := foldlM_ok (motive := fun seen (state : Userstate.Manager × (String → Bool)) =>
    (seen.map Prod.fst).Nodup → (∀ entry ∈ seen, isSocks entry.2 = true →
      state.2 entry.1 = asksForUsers entry.2) ∧
      ∀ tag ∉ seen.map Prod.fst, state.2 tag = false) ?_ (fun _ => ⟨by simp, fun _ _ => rfl⟩) husers
  · exact ⟨(hfold htags.1).1, rfl⟩
  intro seen state entry state' _ hseen hstep hnodup
  rw [List.map_append, List.nodup_append] at hnodup
  obtain ⟨hflags, hnone⟩ := hseen hnodup.1
  have hnew : entry.1 ∉ seen.map Prod.fst := fun hmem => hnodup.2.2 _ hmem _ List.mem_cons_self rfl
  rw [newInbound] at hstep
  split at hstep
  next hsupported =>
    obtain ⟨users, hprepared, hstep⟩ := bind_eq_ok hstep
    cases hstep
    refine ⟨fun found hfound hsocks => ?_, fun tag htag => ?_⟩
    · obtain hfound | hfound := List.mem_append.mp hfound
      · rw [← hflags found hfound hsocks]
        exact Function.update_of_ne (ne_of_mem_of_not_mem (List.mem_map_of_mem hfound) hnew) ..
      · obtain rfl := List.mem_singleton.mp hfound
        exact (Function.update_self ..).trans
          (prepareUsers_socks hprepared hsocks (fun _ => hnone _ hnew))
    · rw [List.map_append, List.mem_append, not_or] at htag
      exact (Function.update_of_ne (fun heq => htag.2 (List.mem_singleton.mpr heq)) ..).trans
        (hnone tag htag.1)
  next hunsupported =>
    cases hstep
    refine ⟨fun found hfound hsocks => ?_, fun tag htag => ?_⟩
    · obtain hfound | hfound := List.mem_append.mp hfound
      · exact hflags found hfound hsocks
      · obtain rfl := List.mem_singleton.mp hfound
        exact absurd (supported_of_isSocks hsocks) hunsupported
    · rw [List.map_append, List.mem_append, not_or] at htag
      exact hnone tag htag.1

/-- In every state a SOCKS inbound refuses anonymous clients exactly if its options ask for users.
Once it does, it does in every later state, and so does an instance started from a later
configuration. -/
theorem socks_authentication_sticky {instanceId : String} {config : Object} {b₀ : Box}
    (hstart : start env instanceId config = .ok b₀) (actions later : List Action) :
    (∀ tag inbound, (tag, inbound) ∈ inboundRows (run (step env) actions b₀).config →
      isSocks inbound = true →
        (RequiresAuth (run (step env) actions b₀) tag ↔ asksForUsers inbound = true)) ∧
      ∀ tag, RequiresAuth (run (step env) actions b₀) tag →
        RequiresAuth (run (step env) (actions ++ later) b₀) tag ∧
          ∀ instanceId' fresh, start env instanceId'
          (run (step env) (actions ++ later) b₀).config = .ok fresh →
            RequiresAuth fresh tag := by
  obtain ⟨hstored, -⟩ := run_spec (start_stored hstart).1 actions
  rw [run_append]
  refine ⟨fun tag inbound hmem hsocks => ?_, fun tag htag => ?_⟩
  · rw [← hstored (tag, inbound) hmem hsocks]
    exact ⟨And.right, fun hrequired => ⟨⟨inbound, hmem, hsocks⟩, hrequired⟩⟩
  · obtain ⟨hlater, hsticks⟩ := run_spec hstored later
    have hrequires := hsticks tag htag
    refine ⟨hrequires, fun instanceId' fresh hfresh => ?_⟩
    obtain ⟨hfreshStored, hconfig⟩ := start_stored hfresh
    obtain ⟨⟨inbound, hmem, hsocks⟩, hrequired⟩ := hrequires
    -- the flag is in the options, and the options are all that a start has
    rw [hlater (tag, inbound) hmem hsocks, ← hfreshStored (tag, inbound) (hconfig ▸ hmem) hsocks]
      at hrequired
    exact ⟨⟨inbound, hconfig ▸ hmem, hsocks⟩, hrequired⟩

end

def socksConfig (requireAuth : Bool) (users : List String) : Object :=
  [("inbounds", .arr [.obj [("require_auth", .bool requireAuth), ("tag", .str "in"),
    ("type", .str "socks"), ("users",
      .arr (users.map (fun name => .obj [("password", .str "key"), ("username", .str name)])))]])]

def socksEnv : Env where
  lib := ⟨id, fun value => if value = .obj (socksConfig false ["a"]) then "one" else "none"⟩
  dependencies _ := []

/-- All users are removed; the accepted configuration has `require_auth`. -/
theorem removed_users_denied : ∃ b₀ fresh, start socksEnv "" (socksConfig false ["a"]) = .ok b₀ ∧
    (reloadUsers socksEnv { updated := socksConfig false [] } b₀).2 ≠ .accepted ∧
    (reloadUsers socksEnv { updated := socksConfig true [] } b₀).2 = .accepted ∧
      start socksEnv "" (socksConfig true []) = .ok fresh ∧ RequiresAuth fresh "in" := by
  have hsticks := @socks_authentication_sticky socksEnv "" (socksConfig false ["a"]) _ rfl []
    [.reload { updated := socksConfig true [] }]
  refine ⟨_, _, rfl, by decide, by decide, rfl, (hsticks.2 "in" ?_).2 "" _ rfl⟩
  exact (hsticks.1 "in" _ List.mem_cons_self (by decide)).mpr (by decide)

end NodeManager.SocksAuthentication
