import NodeManager.ColdStart
import NodeManager.SessionRevocation

namespace NodeManager.UpdatePreview

open Dictionary JsonValues Outcomes Runs UserReload ReloadPlans RuntimeBox ReloadCases
  OutboundManager ReloadedOutbounds
open ReloadedInbounds OutboundServing ColdStart

/-- `Dependencies` of an outbound: the members of a group, and the detour of any other outbound. -/
def dependencies (row : Object) : List String :=
  if text row "type" = some "selector" ∨ text row "type" = some "urltest" then
    (rows row "outbounds").filterMap Json.str?
  else (text row "detour").toList.filter (· ≠ "")

def environment (lib : Library) : Env := ⟨lib, dependencies⟩

@[simp]
theorem environment_lib (lib : Library) : (environment lib).lib = lib := rfl

structure Preview where
  instanceId : String
  revision : Nat
  hash : String
  supported : Bool

def previewUserUpdate (lib : Library) (updated : Object) (b : Box) : Preview where
  instanceId := b.instanceId
  revision := b.revision
  hash := lib.fingerprint (.obj updated)
  supported := lib.fingerprint (.obj updated) = b.contentHash ||
    (planUserUpdate lib b.config updated).isOk

def Fenced (preview : Preview) (call : Call) : Prop :=
  call.expectedInstance = preview.instanceId ∧ call.expectedRevision = some preview.revision

structure Constructs (lib : Library) (call : Call) (b : Box) : Prop where
  tables : ∀ plan, planUserUpdate lib b.config call.updated = .ok plan →
    ∀ inbound ∈ plannedInbounds call plan, ∃ users,
    prepareUsers lib true (b.required ((text inbound "tag").getD "")) inbound = .ok users
  inbounds : ∀ tag, call.inboundFails tag = none
  rules : ∀ index, call.ruleFate index = .works
  outbounds : ∀ index, call.outboundFate index = .works

/-- What running outbounds ask of an update and the planner does not: tags of their own for
outbounds and endpoints, the default unless it is the built-in one, and every outbound that another
one needs, as they are. -/
structure Replaceable (builtIn : Bool) (before after : Object) : Prop where
  tags : checkOptions after = true
  default : builtIn = false → ∀ entry, chosen (finalTag before) (outboundRows before) = some entry →
    (outboundRows after).lookup entry.1 = some entry.2
  needed : ∀ entry ∈ outboundRows before, ∀ tag ∈ dependencies entry.2, ∀ row,
    (outboundRows before).lookup tag = some row → (outboundRows after).lookup tag = some row

theorem dependencies_of_independent {row : Object} (h : independent row = true) :
    dependencies row = [] := by
  rw [independent, Bool.and_eq_true, Bool.or_eq_true, decide_eq_true_eq, decide_eq_true_eq] at h
  obtain ⟨hkind, hdetour⟩ := h
  have htext : text row "detour" = none := by
    unfold text
    cases hfield : field row "detour" with
    | none => rfl
    | some value =>
      rw [hfield, Option.all_some, decide_eq_true_eq] at hdetour
      rw [hdetour]
      rfl
  rw [dependencies, htext]
  obtain hkind | hkind := hkind <;> simp [text, hkind, Json.str?]

/-- The instance is open, and its manager has the endpoints and dependents of the configuration. A
built-in default is no outbound of it. -/
structure Linked (first : Object) (b : Box) : Prop where
  running : b.done = false
  endpoints : b.outbounds.endpoints = effectiveTags (rows b.config "endpoints")
  dependents : ∀ tag, b.outbounds.dependByTag tag = [] ↔
    ∀ entry ∈ outboundRows b.config, tag ∉ dependencies entry.2
  builtIn : needsFallback first = true → ∀ tag ∈ (outboundRows b.config).map Prod.fst, ∀ object,
    b.outbounds.outboundByTag.get? tag = some object →
    b.outbounds.defaultOutbound ≠ some (.outbound object)

theorem dependByTag_create (m : Manager) (made : Made) (tag : String) :
    (m.create dependencies made).dependByTag tag = [] ↔ m.dependByTag tag = [] ∧
    tag ∉ dependencies made.options := by
  change (dependencies made.options).foldl _ m.dependByTag tag = [] ↔ _
  generalize dependencies made.options = tags
  generalize m.dependByTag = depend
  induction tags generalizing depend with
  | nil => simp
  | cons first tags ih =>
    rw [List.foldl_cons, ih, List.mem_cons, not_or]
    by_cases h : tag = first
    · simp [h]
    · simp [h]

theorem newOutbounds_linked (lib : Library) (config : Object) :
    (newOutbounds (environment lib) config).endpoints = effectiveTags (rows config "endpoints") ∧
      ∀ tag, (newOutbounds (environment lib) config).dependByTag tag = [] ↔
        ∀ entry ∈ outboundRows config, tag ∉ dependencies entry.2 := by
  refine @foldl_seen _ _ (fun (seen : List (String × Object)) (m : Manager) => m.endpoints =
    effectiveTags (rows config "endpoints") ∧
    ∀ tag, m.dependByTag tag = [] ↔ ∀ entry ∈ seen, tag ∉ dependencies entry.2) _ _ _ ⟨rfl,
    fun _ => by simp⟩ (fun seen entry rest m _ hm => ⟨hm.1, fun tag => ?_⟩)
  refine (dependByTag_create m ⟨entry.1, entry.2⟩ tag).trans ?_
  rw [hm.2, List.forall_mem_append, List.forall_mem_singleton]

theorem start_linked {lib : Library} {instanceId : String} {config : Object} {b : Box}
    (h : start (environment lib) instanceId config = .ok b) : Linked config b := by
  obtain ⟨_, -, h⟩ := bind_eq_ok h
  obtain ⟨users, -, h⟩ := bind_eq_ok h
  obtain ⟨outbounds, houtbounds, h⟩ := bind_eq_ok h
  cases h
  obtain ⟨hendpoints, hdependents⟩ := newOutbounds_linked lib config
  have hnone (hneeds : needsFallback config = true)
    (tag : String) : tag ∉ (outboundRows config).map Prod.fst :=
    Dict.lookup_eq_none.mp (lookup_of_needsFallback hneeds tag)
  obtain ⟨-, -, -, rfl⟩ | ⟨-, -, rfl⟩ | ⟨-, rfl⟩ := Manager.start_cases houtbounds
  all_goals exact ⟨rfl, hendpoints, hdependents,
    fun hneeds tag htag => absurd htag (hnone hneeds tag)⟩

section

variable {lib : Library} {first before after : Object} {plan : UserUpdatePlan} {s : Stages}
  {call : Call} {b : Box}

theorem dependencies_of_changed (h : Accepted lib before after plan s) {tag : String} {row : Object}
    (hrow : s.oldOut.get? tag = some row ∨ s.newOut.get? tag = some row)
    (hne : s.oldOut.get? tag ≠ s.newOut.get? tag) :
    dependencies row = [] := by
  have hchanged : tag ∈ (s.change after).changed :=
    by_contra (fun hsame => hne (h.outbound_same hsame))
  obtain ⟨hold, hnew⟩ := h.independent tag hchanged
  obtain hrow | hrow := hrow
  · rw [hrow] at hold
    exact dependencies_of_independent hold
  · rw [hrow] at hnew
    exact dependencies_of_independent hnew

theorem dependents_same (h : Accepted lib before after plan s) (tag : String) :
    (∀ entry ∈ outboundRows after, tag ∉ dependencies entry.2) ↔
      ∀ entry ∈ outboundRows before, tag ∉ dependencies entry.2 := by
  rw [outboundRows, outboundRows, taggedRows_eq h.oldOut, taggedRows_eq h.newOut]
  constructor <;> intro hnone entry hentry htag <;> have hget := Dict.mem_entries_iff.mp hentry
  · by_cases hsame : s.oldOut.get? entry.1 = s.newOut.get? entry.1
    · exact hnone entry (Dict.mem_entries_iff.mpr (hsame ▸ hget)) htag
    · rw [dependencies_of_changed h (.inl hget) hsame] at htag
      cases htag
  · by_cases hsame : s.oldOut.get? entry.1 = s.newOut.get? entry.1
    · exact hnone entry (Dict.mem_entries_iff.mpr (hsame ▸ hget)) htag
    · rw [dependencies_of_changed h (.inr hget) hsame] at htag
      cases htag

theorem Linked.reload (h : Linked first b) (hserving : Serving (environment lib) first b)
    (call : Call) :
    Linked first (reloadUsers (environment lib) call b).1 := by
  by_cases haccepted : (reloadUsers (environment lib) call b).2 = .accepted
  · obtain ⟨plan, users, updates, p, outbounds, prepared, hreload⟩ := accepted_cases haccepted
    obtain ⟨s, hs⟩ := accepted hreload.planned.decided
    have hr := replacing hs hreload.ready
    obtain ⟨k, hbuilds, hprepared⟩ := hr.built
    rw [hreload.result]
    refine ⟨h.running, ?_, fun tag => ?_, fun hneeds tag htag object hobject hdefault => ?_⟩
    · change outbounds.endpoints = effectiveTags (rows call.updated "endpoints")
      rw [hbuilds.endpoints, h.endpoints, endpoints_same hs]
    · change outbounds.dependByTag tag = [] ↔
        ∀ entry ∈ outboundRows call.updated, tag ∉ dependencies entry.2
      rw [hbuilds.dependByTag, h.dependents, dependents_same hs]
    change tag ∈ (outboundRows call.updated).map Prod.fst at htag
    change (outbounds.publish prepared plan.removedOutbounds).outboundByTag.get? tag =
      some object at hobject
    change outbounds.defaultOutbound = some (.outbound object) at hdefault
    rw [hbuilds.defaultOutbound] at hdefault
    rw [outboundRows, taggedRows_eq hs.newOut] at htag
    obtain ⟨row, hrow⟩ := Dict.mem_keys_iff.mp htag
    by_cases hold : s.oldOut.get? tag = some row
    · have hmem := Dict.mem_keys_iff.mpr ⟨row, hold⟩
      rw [Dict.keys, ← taggedRows_eq hs.oldOut] at hmem
      rw [hr.get?_same (hrow.trans hold.symm)] at hobject
      exact h.builtIn hneeds tag hmem object hobject hdefault
    -- the object is new, and the default is not
    obtain ⟨found, hfound, hget, -⟩ := hr.get?_changed hrow hold
    cases hget.symm.trans hobject
    rw [hprepared] at hfound
    exact absurd (hserving.outbounds.defaultBounded object hdefault)
      (Nat.not_lt.mpr (List.mem_range'_1.mp hfound).1)
  · obtain ⟨k, hbuilds, -⟩ := rejected_outbounds haccepted
    obtain ⟨rules, outbounds, hsame⟩ := rejected_same haccepted
    rw [hsame] at hbuilds ⊢
    refine ⟨h.running, hbuilds.endpoints.trans h.endpoints, fun tag => ?_, ?_⟩
    · rw [hbuilds.dependByTag]
      exact h.dependents tag
    · rw [hbuilds.outboundByTag, hbuilds.defaultOutbound]
      exact h.builtIn

theorem Linked.step (h : Linked first b) (hserving : Serving (environment lib) first b)
    (action : Action) :
    Linked first (RuntimeBox.step (environment lib) action b) := by
  cases action with
  | reload call => exact h.reload hserving call
  | bind handle token =>
    simp only [RuntimeBox.step]
    split
    · exact { h with }
    · exact h
  | _ => exact { h with }

theorem Linked.run (h : Linked first b) (hserving : Serving (environment lib) first b)
    (actions : List Action) :
    Linked first (Runs.run (RuntimeBox.step (environment lib)) actions b) := by
  induction actions generalizing b with
  | nil => exact h
  | cons action actions ih => exact ih (h.step hserving action) (hserving.step action)

theorem oldIn_of_newIn (h : Accepted lib before after plan s) {tag : String} {next : Object}
    (hnext : s.newIn.get? tag = some next) : ∃ old, s.oldIn.get? tag = some old := by
  have hsubset : s.oldIn.keys ⊆ s.newIn.keys := by
    intro tag htag
    obtain ⟨old, hold⟩ := Dict.mem_keys_iff.mp htag
    obtain ⟨_, _, hscan⟩ := scanned_entry h hold
    obtain ⟨next, hnext, -⟩ := scanInbound_cases hscan
    exact Dict.mem_keys_iff.mpr ⟨next, hnext⟩
  have hlength : s.newIn.keys.length ≤ s.oldIn.keys.length := by
    rw [Dict.keys, Dict.keys, List.length_map, List.length_map, h.topology.1]
  have hperm := (s.oldIn.nodup.subperm hsubset).perm_of_length_le hlength
  exact Dict.mem_keys_iff.mp (hperm.mem_iff.mpr (Dict.mem_keys_iff.mpr ⟨next, hnext⟩))

theorem supported_of_planned (h : Accepted lib b.config call.updated plan s) {inbound : Object}
    (hinbound : inbound ∈ plannedInbounds call plan) : supported inbound = true := by
  obtain ⟨tag, hnext, hchanged⟩ :=
    (@mem_plannedInbounds (environment lib) call b plan s h inbound).mp hinbound
  obtain ⟨old, hold⟩ := oldIn_of_newIn h hnext
  have hmanaged := SessionRevocation.managed_of_changed h hold hnext hchanged
  rw [managed, Bool.and_eq_true, Bool.and_eq_true] at hmanaged
  obtain ⟨_, _, hscan⟩ := scanned_entry h hold
  obtain ⟨next, hnext', ⟨-, rfl, -⟩ | ⟨-, hbase, -⟩⟩ := scanInbound_cases hscan
  all_goals cases hnext.symm.trans hnext'
  · exact hmanaged.1.1
  -- the type is not among the keys that may change
  have hkind : field old "type" = field inbound "type" := by
    have hfield := congrArg (field · "type") hbase
    have hkey : "type" ∉ mutableKeys old := by
      unfold mutableKeys
      split <;> decide
    simpa [field_without, hkey] using hfield
  rw [supported, ← hkind]
  exact hmanaged.1.1

theorem prepareInbounds_works {env : Env} {changedNames : List String}
    (hfails : ∀ tag, call.inboundFails tag = none) (inbounds : List Object)
    (h : ∀ inbound ∈ inbounds, supported inbound = true ∧
      ∃ users, prepareUsers env.lib true (b.required ((text inbound "tag").getD ""))
      inbound = .ok users)
    (m : Userstate.Manager) : ∃ result,
    prepareInbounds env b call changedNames inbounds m = .ok result := by
  induction inbounds generalizing m with
  | nil => exact ⟨_, rfl⟩
  | cons inbound inbounds ih =>
    obtain ⟨⟨hsupported, users, husers⟩, hrest⟩ := List.forall_mem_cons.mp h
    obtain ⟨result, hresult⟩ := ih hrest
      (m.prepare ((text inbound "tag").getD "") users.1 changedNames).1
    simp only [prepareInbounds, require, if_pos hsupported, husers, hfails, ok_bind,
      Except.mapError, hresult]
    exact ⟨_, rfl⟩

theorem prepareRules_works (previous : List RuleSnapshots.Rule) (wanted : List RuleSnapshots.Wanted)
    (h : ∀ w ∈ wanted, w.fate = .works) (r : RuleSnapshots.Router)
    (next added : List RuleSnapshots.Rule) :
    ∃ lists, (RuleSnapshots.Router.prepareRules previous wanted r next added).2 = some lists := by
  induction wanted generalizing r next added with
  | nil => exact ⟨_, rfl⟩
  | cons w wanted ih =>
    obtain ⟨hfate, hrest⟩ := List.forall_mem_cons.mp h
    unfold RuleSnapshots.Router.prepareRules
    cases w.previous with
    | some index => exact ih hrest _ _ _
    | none =>
      rw [hfate]
      exact ih hrest _ _ _

theorem prepareOutbounds_works (wanted : List Wanted) (m : Manager) (h : ∀ w ∈ wanted,
      independent w.made.options = true ∧ w.made.tag ∉ m.endpoints ∧ w.fate = .works) (prepared :
      List Outbound) :
    ∃ all, (Manager.prepareOutbounds dependencies wanted m prepared).2 = .ok all := by
  induction wanted generalizing m prepared with
  | nil => exact ⟨_, rfl⟩
  | cons w wanted ih =>
    obtain ⟨⟨hindependent, htag, hfate⟩, hrest⟩ := List.forall_mem_cons.mp h
    have hkind : ¬(text w.made.options "type" ≠ some "direct" ∧
        text w.made.options "type" ≠ some "socks") := by
      rw [independent, Bool.and_eq_true, Bool.or_eq_true, decide_eq_true_eq, decide_eq_true_eq]
        at hindependent
      obtain ⟨hkind | hkind, -⟩ := hindependent <;> simp [text, hkind, Json.str?]
    have hnone : ¬dependencies w.made.options ≠ [] :=
      not_not.mpr (dependencies_of_independent hindependent)
    simp only [Manager.prepareOutbounds, if_neg hkind, if_neg htag, hfate, if_neg hnone]
    exact ih (m.newOutbound w.made) hrest _

theorem wanted_works (h : Accepted lib b.config call.updated plan s) (hlinked : Linked first b)
    (hoptions : checkOptions call.updated = true)
    (hfate : ∀ index, call.outboundFate index = .works) :
    ∀ w ∈ wantedOutbounds call plan,
      independent w.made.options = true ∧ w.made.tag ∉ b.outbounds.endpoints ∧ w.fate = .works := by
  intro w hw
  have hmade : w.made ∈ (wantedOutbounds call plan).map Wanted.made := List.mem_map_of_mem hw
  rw [@wantedOutbounds_made (environment lib) call b plan s h] at hmade
  obtain ⟨⟨tag, row⟩, hrow, hmade⟩ := List.mem_map.mp hmade
  obtain ⟨hnew, hold⟩ := mem_changedRows.mp hrow
  have hchanged : tag ∈ (s.change call.updated).changed :=
    by_contra (fun hsame => hold ((h.outbound_same hsame).trans hnew))
  have hindependent := (h.independent tag hchanged).2
  rw [hnew, Option.all_some] at hindependent
  rw [← hmade]
  refine ⟨hindependent, fun hendpoint => ?_, ?_⟩
  · rw [checkOptions, Bool.and_eq_true, decide_eq_true_eq, decide_eq_true_eq] at hoptions
    rw [hlinked.endpoints, ← @endpoints_same (environment lib) _ _ _ _ h] at hendpoint
    have hmem : (tag, row) ∈ outboundRows call.updated := by
      rw [outboundRows, taggedRows_eq h.newOut]
      exact Dict.mem_entries_iff.mpr hnew
    exact (List.nodup_append.mp hoptions.2).2.2 _ (List.mem_map_of_mem hmem) _ hendpoint rfl
  · obtain ⟨index, -, rfl⟩ := List.mem_map.mp hw
    exact hfate index

theorem Replaceable.removable (h : Replaceable (needsFallback first) b.config call.updated)
    (hlinked : Linked first b) (hserves : Serves first b.outbounds b.config)
    (hs : Accepted lib b.config call.updated plan s) :
    plan.removedOutbounds.all (b.outbounds.removable dependencies) = true := by
  refine List.all_eq_true.mpr (fun tag htag => ?_)
  obtain ⟨row, hold, hnew⟩ := (@mem_removedOutbounds (environment lib) call b plan s hs tag).mp htag
  have hbefore : (outboundRows b.config).lookup tag = some row :=
    (@lookup_before (environment lib) _ _ _ _ hs tag).trans hold
  have hafter : (outboundRows call.updated).lookup tag ≠ some row := by
    rwa [@lookup_after (environment lib) _ _ _ _ hs tag]
  obtain ⟨object, hobject, hmade⟩ := Option.map_eq_some_iff.mp (hserves.rows tag row hbefore)
  have hdefault : b.outbounds.defaultOutbound ≠ some (.outbound object) := by
    cases hneeds : needsFallback first with
    | true =>
      refine hlinked.builtIn hneeds tag ?_ object hobject
      rw [outboundRows, taggedRows_eq hs.oldOut]
      exact Dict.mem_keys_iff.mpr ⟨row, hold⟩
    | false =>
      intro hdefault
      obtain ⟨entry, hchosen, hentry⟩ := hserves.default_entry (by simp [hneeds]) hdefault
      rw [hmade, Made.mk.injEq] at hentry
      refine hafter ?_
      rw [hentry.1, hentry.2]
      exact h.default hneeds entry hchosen
  have hdepended : b.outbounds.dependByTag tag = [] := by
    rw [hlinked.dependents]
    exact fun entry hentry hmem => hafter (h.needed entry hentry tag hmem row hbefore)
  have hnone : dependencies row = [] :=
    dependencies_of_changed hs (.inl hold) (fun heq => hnew (heq ▸ hold))
  simp [Manager.removable, hobject, hdefault, hdepended, hmade, hnone]

theorem replaceable_of_accepted (hlinked : Linked first b)
    (hserving : Serving (environment lib) first b)
    (h : (reloadUsers (environment lib) call b).2 = .accepted) :
    Replaceable (needsFallback first) b.config call.updated := by
  obtain ⟨plan, users, updates, p, outbounds, prepared, hreload⟩ := accepted_cases h
  obtain ⟨s, hs⟩ := accepted hreload.planned.decided
  refine ⟨hreload.planned.options, fun hneeds entry hchosen => ?_,
    fun entry hentry tag htag row hrow => ?_⟩
  · rw [lookup_after hs]
    exact (hserving.outbounds.row_kept (by rw [hneeds]; nofun) hs
      (replacing hs hreload.ready) hchosen).2
  rw [lookup_before hs] at hrow
  rw [lookup_after hs]
  by_contra hnew
  have hremoved := (mem_removedOutbounds hs tag).mpr ⟨row, hrow, hnew⟩
  have hready := hreload.ready
  rw [preparedOutbounds, Manager.prepareUserUpdate] at hready
  split at hready
  next hall =>
    have hremovable := List.all_eq_true.mp hall tag hremoved
    unfold Manager.removable at hremovable
    split at hremovable
    · cases hremovable
    · simp only [Bool.and_eq_true, decide_eq_true_eq] at hremovable
      exact (hlinked.dependents tag).mp hremovable.1.2 entry hentry htag
  · cases congrArg Prod.snd hready

theorem Fenced.instance {updated : Object} (h : Fenced (previewUserUpdate lib updated b) call) :
    ¬(call.expectedInstance ≠ "" ∧ call.expectedInstance ≠ b.instanceId) := fun hne => hne.2 h.1

theorem Replaceable.applied (h : Replaceable (needsFallback first) b.config call.updated)
    (hlinked : Linked first b) (hserving : Serving (environment lib) first b)
    (hworks : Constructs lib call b) (hfenced : Fenced (previewUserUpdate lib call.updated b) call)
    (hplan : planUserUpdate lib b.config call.updated = .ok plan)
    (hhash : lib.fingerprint (.obj call.updated) ≠ b.contentHash) :
    (reloadUsers (environment lib) call b).2 = .accepted := by
  obtain ⟨s, hs⟩ := accepted hplan
  obtain ⟨⟨users, updates⟩, hinbounds⟩ :=
    @prepareInbounds_works call b (environment lib) plan.changedNames hworks.inbounds
    (plannedInbounds call plan) (fun inbound hmem =>
    ⟨supported_of_planned hs hmem, hworks.tables plan hplan inbound hmem⟩) b.users
  have hrevision : ¬call.expectedRevision.any (· ≠ b.revision) = true := by
    rw [hfenced.2]
    simp [previewUserUpdate]
  have hreload : reloadUsers (environment lib) call b =
      applyPlan (environment lib) b call plan users updates := by
    rw [reloadUsers, hlinked.running, if_neg Bool.false_ne_true, if_neg hfenced.instance,
      environment_lib, if_neg hhash, if_neg hrevision]
    simp only [hplan, h.tags, not_true_eq_false, if_false, hinbounds]
  have hfates : ∀ w ∈ wantedRules call plan, w.fate = .works := by
    intro w hw
    obtain ⟨entry, -, rfl⟩ := List.mem_map.mp hw
    exact hworks.rules entry.2
  rw [hreload, applyPlan]
  split
  next hnone =>
    obtain ⟨lists, hlists⟩ := prepareRules_works b.rules.router.currentRules _ hfates
      b.rules.router [] []
    simp only [RuleLeases.step, hserving.rules.idle, RuleSnapshots.Router.prepareAddedRules,
      hlists] at hnone
    cases hnone
  split
  next hready =>
    obtain ⟨all, hall⟩ := prepareOutbounds_works (wantedOutbounds call plan) b.outbounds
      (wanted_works hs hlinked h.tags hworks.outbounds) []
    have hremovable := h.removable hlinked hserving.outbounds hs
    rw [Manager.prepareUserUpdate, environment, if_pos hremovable] at hready
    rw [hready] at hall
    cases hall
  · rfl

/-- After a preview that reports support, the update with everything constructed is applied if and
only if it leaves alone what the running outbounds need. -/
theorem preview_predicts_iff {instanceId : String} {config : Object} {b₀ : Box}
    (hmarshalled : Marshalled config) (hstart : start (environment lib) instanceId config = .ok b₀)
    (actions : List Action) (call : Call) (hsupported : (previewUserUpdate lib call.updated
      (Runs.run (RuntimeBox.step (environment lib)) actions b₀)).supported = true)
    (hfenced : Fenced (previewUserUpdate lib call.updated
      (Runs.run (RuntimeBox.step (environment lib)) actions b₀)) call)
    (hworks : Constructs lib call (Runs.run (RuntimeBox.step (environment lib)) actions b₀)) :
    (∀ error, (reloadUsers (environment lib) call
        (Runs.run (RuntimeBox.step (environment lib)) actions b₀)).2 ≠ .failed error) ↔
      (lib.fingerprint (.obj call.updated) =
        (Runs.run (RuntimeBox.step (environment lib)) actions b₀).contentHash ∨
        Replaceable (needsFallback config)
        (Runs.run (RuntimeBox.step (environment lib)) actions b₀).config
          call.updated) := by
  have hserving := (start_serving hmarshalled hstart).1
  have hlinked := (start_linked hstart).run hserving actions
  replace hserving := hserving.run actions
  revert hsupported hfenced hworks hserving hlinked
  generalize Runs.run (RuntimeBox.step (environment lib)) actions b₀ = b
  intro hsupported hfenced hworks hlinked hserving
  by_cases hhash : lib.fingerprint (.obj call.updated) = b.contentHash
  · refine iff_of_true (fun error => ?_) (.inl hhash)
    rw [reloadUsers, hlinked.running, if_neg Bool.false_ne_true, if_neg hfenced.instance,
      environment_lib, if_pos hhash]
    nofun
  · obtain ⟨plan, hplan⟩ : ∃ plan, planUserUpdate lib b.config call.updated = .ok plan := by
      simp only [previewUserUpdate, hhash, decide_false, Bool.false_or] at hsupported
      cases hplan : planUserUpdate lib b.config call.updated with
      | ok plan => exact ⟨plan, rfl⟩
      | error error =>
        rw [hplan] at hsupported
        cases hsupported
    refine ⟨fun hnot => .inr ?_, fun h error => ?_⟩
    · refine replaceable_of_accepted hlinked hserving ?_
      cases houtcome : (reloadUsers (environment lib) call b).2 with
      | accepted => rfl
      | unchanged => exact absurd (unchanged_same houtcome).1 hhash
      | failed error => exact absurd houtcome (hnot error)
    · rw [(h.resolve_left hhash).applied hlinked hserving hworks hfenced hplan hhash]
      nofun

end

theorem constructs_of_plan {lib : Library} {call : Call} {b : Box} {plan : UserUpdatePlan}
    (hplan : planUserUpdate lib b.config call.updated = .ok plan) (hnone : plan.inboundIndexes = [])
    (hworks : call.inboundFails = (fun _ => none) ∧ call.ruleFate = (fun _ => .works) ∧
      call.outboundFate = (fun _ => .works)) : Constructs lib call b := by
  refine ⟨fun plan' hplan' inbound hinbound => ?_, fun tag => by rw [hworks.1],
    fun index => by rw [hworks.2.1], fun index => by rw [hworks.2.2]⟩
  cases hplan.symm.trans hplan'
  rw [plannedInbounds, hnone] at hinbound
  cases hinbound

def exits (final server : String) (more : List Json) : Object :=
  [("outbounds", .arr ([.obj [("tag", .str "direct"), ("type", .str "direct")],
      .obj [("tag", .str "exit"), ("type", .str "socks"), ("server", .str server)],
      .obj [("tag", .str "group"), ("type", .str "selector"), ("outbounds", .arr [.str "exit"])],
      .obj [("tag", .str "via"), ("type", .str "socks"), ("detour", .str "direct")]] ++ more)),
    ("route", .obj [("final", .str final)])]

def exitsLib : Library where
  canonicalUuid := id
  fingerprint value :=
    if value = .obj (exits "exit" "10.0.0.1" []) ∨
      value = .obj (exits "direct" "10.0.0.1" []) then "before"
    else "after"

def addExit : Call where
  updated := exits "direct" "10.0.0.1" [.obj [("tag", .str "spare"), ("type", .str "socks")]]
  expectedRevision := some 0
  expectedInstance := "i"

/-- An outbound is added, and the members, the detours and the default stay. -/
theorem added_outbound_predicted :
    ∃ b₀, start (environment exitsLib) "i" (exits "direct" "10.0.0.1" []) = .ok b₀ ∧
    (reloadUsers (environment exitsLib) addExit b₀).2 = .accepted ∧
      Replaceable false (exits "direct" "10.0.0.1" []) addExit.updated := by
  have haccepted : ∀ b₀, start (environment exitsLib) "i" (exits "direct" "10.0.0.1" []) = .ok b₀ →
      (reloadUsers (environment exitsLib) addExit b₀).2 = .accepted := by
    rintro _ ⟨⟩
    decide
  have hmarshalled : Marshalled (exits "direct" "10.0.0.1" []) := by
    rintro _ ⟨⟩
    exact ⟨"direct", rfl, by decide⟩
  refine ⟨_, rfl, haccepted _ rfl, ?_⟩
  have hiff := @preview_predicts_iff exitsLib "i" (exits "direct" "10.0.0.1" []) _ hmarshalled
    rfl [] addExit (by decide) ⟨rfl, rfl⟩
    (@constructs_of_plan _ _ _ ⟨[], [4], [], [], []⟩ (by decide) rfl ⟨rfl, rfl, rfl⟩)
  exact (hiff.mp (fun error herror =>
    nomatch (haccepted _ rfl).symm.trans herror)).resolve_left (by decide)

def moveExit (final : String) : Call where
  updated := exits final "10.0.0.2" []
  expectedRevision := some 0
  expectedInstance := "i"

def RefusedMove (final : String) : Prop :=
  ∃ b₀, start (environment exitsLib) "i" (exits final "10.0.0.1" []) = .ok b₀ ∧
    (previewUserUpdate exitsLib (moveExit final).updated b₀).supported = true ∧
      Fenced (previewUserUpdate exitsLib (moveExit final).updated b₀) (moveExit final) ∧
        Constructs exitsLib (moveExit final) b₀ ∧
        (reloadUsers (environment exitsLib) (moveExit final) b₀).2 =
          .failed (.outbounds "outbound is shared, default, dependent, or unavailable")

/-- Another server for the final outbound, or for a member of a group. -/
theorem changed_exit_refused : RefusedMove "exit" ∧ RefusedMove "direct" := by
  constructor
  all_goals
    exact ⟨_, rfl, by decide, ⟨rfl, rfl⟩,
      @constructs_of_plan _ _ _ ⟨[], [1], ["exit"], [], []⟩ (by decide) rfl
      ⟨rfl, rfl, rfl⟩, by decide⟩

end NodeManager.UpdatePreview
