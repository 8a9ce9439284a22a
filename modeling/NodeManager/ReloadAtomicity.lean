import NodeManager.ColdStart
import NodeManager.RuleAccounts

namespace NodeManager.ReloadAtomicity

open Dictionary JsonValues Outcomes Runs UserReload ReloadPlans RuntimeBox ReloadCases
  OutboundManager ReloadedOutbounds
open ReloadedRules OutboundServing ColdStart

structure Held (m : Manager) : Prop where
  live : ∀ tag object, m.outboundByTag.get? tag = some object → object ∉ m.closed
  complete : ∀ object, object < m.constructed → object ∈ m.closed ∨
    ∃ tag, m.outboundByTag.get? tag = some object
  nodup : m.closed.Nodup
  bounded : ∀ object ∈ m.closed, object < m.constructed

section

variable {m m' : Manager} {first config : Object} {k : Nat} {object : Outbound}

theorem Held.builds (h : Held m) (hbuilds : Manager.Builds m m' k)
    (hclosed : m'.closed = m.closed ++ List.range' m.constructed k)
    (hmapped : ∀ tag object, m.outboundByTag.get? tag = some object → object < m.constructed) :
    Held m' := by
  refine ⟨fun tag object hobject => ?_, fun object hobject => ?_, ?_, fun object hobject => ?_⟩
  · rw [hbuilds.outboundByTag] at hobject
    rw [hclosed, List.mem_append, not_or]
    refine ⟨h.live tag object hobject, fun hnew => ?_⟩
    exact Nat.not_lt.mpr (List.mem_range'_1.mp hnew).1 (hmapped tag object hobject)
  · rw [hbuilds.constructed] at hobject
    rw [hclosed, hbuilds.outboundByTag, List.mem_append]
    by_cases hold : object < m.constructed
    · exact (h.complete object hold).imp_left .inl
    · exact .inl (.inr (List.mem_range'_1.mpr ⟨Nat.not_lt.mp hold, hobject⟩))
  · rw [hclosed]
    refine List.nodup_append.mpr ⟨h.nodup, List.nodup_range',
      fun object hobject object' hnew heq => ?_⟩
    subst heq
    exact Nat.not_lt.mpr (List.mem_range'_1.mp hnew).1 (h.bounded object hobject)
  · rw [hclosed, List.mem_append] at hobject
    rw [hbuilds.constructed]
    obtain hobject | hobject := hobject
    · exact Nat.lt_of_lt_of_le (h.bounded object hobject) (Nat.le_add_right _ _)
    · exact (List.mem_range'_1.mp hobject).2

theorem tag_of_get? (h : Serves first m config) {tag : String}
    (hobject : m.outboundByTag.get? tag = some object) :
    (m.made object).tag = tag := by
  have hview : viewOutbound m tag = some (m.made object) := by
    rw [viewOutbound, hobject, Option.map_some]
  cases hrow : (outboundRows config).lookup tag with
  | some row =>
    rw [h.rows tag row hrow] at hview
    rw [← Option.some.inj hview]
  | none =>
    obtain hnone | ⟨-, htag, hfallback⟩ := h.others tag hrow
    · cases hnone.symm.trans hview
    · rw [hfallback] at hview
      rw [← Option.some.inj hview, htag]

variable {env : Env} {after : Object} {plan : UserUpdatePlan} {s : Stages} {outbounds : Manager}
  {prepared : List Outbound} {removed : List String}

theorem mem_retired (hr : Replacing s m outbounds prepared removed) :
    object ∈ outbounds.retired removed ↔
    ∃ tag ∈ removed, m.outboundByTag.get? tag = some object := by
  obtain ⟨k, hbuilds, -⟩ := hr.built
  rw [Manager.retired, hbuilds.outboundByTag, List.mem_filterMap]

theorem get?_prepared (hr : Replacing s m outbounds prepared removed)
    (hobject : object ∈ prepared) :
    (outbounds.publish prepared removed).outboundByTag.get? (outbounds.made object).tag =
    some object := by
  have hnodup : (prepared.map (fun object => (outbounds.made object).tag)).Nodup := by
    rw [hr.tags]
    exact changedRows_nodup _ _
  have hsome : (prepared.find? (fun o => (outbounds.made o).tag =
    (outbounds.made object).tag)).isSome :=
    List.find?_isSome.mpr ⟨object, hobject, by simp⟩
  obtain ⟨found, hfound⟩ := Option.isSome_iff_exists.mp hsome
  have htag : (outbounds.made found).tag = (outbounds.made object).tag := by
    simpa using List.find?_some hfound
  have heq := List.inj_on_of_nodup_map hnodup (List.mem_of_find?_eq_some hfound) hobject htag
  rw [hr.get?, hfound, Option.some_or, heq]

theorem get?_kept (h : Serves first m config) (ha : Accepted env.lib config after plan s)
    (hr : Replacing s m outbounds prepared removed)
    (hspared : needsFallback first → fallback.tag ∉ effectiveTags (rows after "outbounds"))
    {tag : String} (hobject : m.outboundByTag.get? tag = some object) (hkept : tag ∉ removed) :
    (outbounds.publish prepared removed).outboundByTag.get? tag = some object := by
  refine (hr.get?_same ?_).trans hobject
  rw [hr.mem_removed] at hkept
  cases hold : s.oldOut.get? tag with
  | some row => exact by_contra (fun hne => hkept ⟨row, hold, hne⟩)
  | none =>
    have hview : viewOutbound m tag ≠ none := by simp [viewOutbound, hobject]
    obtain hnone | ⟨hneeds, htag, -⟩ := h.others tag (by rw [lookup_before ha, hold])
    · exact absurd hnone hview
    have habsent := hspared hneeds
    rw [← htag, effectiveTags, ← Dict.lookup_eq_none] at habsent
    exact (lookup_after ha tag).symm.trans habsent

theorem Held.publish (h : Held m) (hserves : Serves first m config)
    (ha : Accepted env.lib config after plan s) (hr : Replacing s m outbounds prepared removed)
    (hspared : needsFallback first → fallback.tag ∉ effectiveTags (rows after "outbounds")) :
    Held ((outbounds.publish prepared removed).closeOutbounds (outbounds.retired removed)) := by
  obtain ⟨k, hbuilds, hprepared⟩ := hr.built
  have hclosed : ((outbounds.publish prepared removed).closeOutbounds
      (outbounds.retired removed)).closed =
      m.closed ++ outbounds.retired removed := congrArg (· ++ outbounds.retired removed) hr.closed
  have hold {object : Outbound} (hobject : object ∈ outbounds.retired removed) :
      object < m.constructed := by
    obtain ⟨tag, -, hget⟩ := (mem_retired hr).mp hobject
    exact hserves.bounded tag object hget
  have hconstructed : ((outbounds.publish prepared removed).closeOutbounds
      (outbounds.retired removed)).constructed =
      m.constructed + k := hbuilds.constructed
  refine ⟨fun tag object hobject => ?_, fun object hobject => ?_, ?_, fun object hobject => ?_⟩
  · rw [hclosed, List.mem_append, not_or]
    have hget := (hr.get? tag).symm.trans hobject
    cases hfind : prepared.find? (fun object => (outbounds.made object).tag = tag) with
    | some found =>
      rw [hfind, Option.some_or] at hget
      cases hget
      rw [hprepared] at hfind
      have hnew := (List.mem_range'_1.mp (List.mem_of_find?_eq_some hfind)).1
      exact ⟨fun hmem => Nat.not_lt.mpr hnew (h.bounded object hmem),
        fun hmem => Nat.not_lt.mpr hnew (hold hmem)⟩
    | none =>
      rw [hfind, Option.none_or] at hget
      split at hget
      · cases hget
      next hkept =>
        refine ⟨h.live tag object hget, fun hmem => hkept ?_⟩
        obtain ⟨tag', htag', hget'⟩ := (mem_retired hr).mp hmem
        rwa [← tag_of_get? hserves hget, tag_of_get? hserves hget']
  · rw [hconstructed] at hobject
    rw [hclosed, List.mem_append]
    by_cases hlt : object < m.constructed
    · obtain hmem | ⟨tag, hget⟩ := h.complete object hlt
      · exact .inl (.inl hmem)
      · by_cases hremoved : tag ∈ removed
        · exact .inl (.inr ((mem_retired hr).mpr ⟨tag, hremoved, hget⟩))
        · exact .inr ⟨tag, get?_kept hserves ha hr hspared hget hremoved⟩
    · refine .inr ⟨_, get?_prepared hr ?_⟩
      rw [hprepared]
      exact List.mem_range'_1.mpr ⟨Nat.not_lt.mp hlt, hobject⟩
  · rw [hclosed]
    refine List.nodup_append.mpr ⟨h.nodup, ?_, fun object hobject object' hobject' heq => ?_⟩
    · rw [Manager.retired, hbuilds.outboundByTag]
      refine List.Nodup.filterMap (fun tag tag' object htag htag' => ?_) hr.nodup
      rw [← tag_of_get? hserves htag, tag_of_get? hserves htag']
    · subst heq
      obtain ⟨tag, -, hget⟩ := (mem_retired hr).mp hobject'
      exact h.live tag object hget hobject
  · rw [hclosed, List.mem_append] at hobject
    rw [hconstructed]
    exact Nat.lt_of_lt_of_le (hobject.elim (h.bounded object) hold) (Nat.le_add_right _ _)

theorem start_held (hoptions : checkOptions config = true)
    (h : (newOutbounds env config).start = .ok m) : Held m := by
  have hm := newOutbounds_creating env hoptions
  have hheld : Held (newOutbounds env config) :=
    ⟨fun _ _ _ => by rw [hm.closed]; exact List.not_mem_nil,
      fun object hobject => .inr (hm.complete object hobject), by
      rw [hm.closed]; exact List.nodup_nil, fun object hobject => by
      rw [hm.closed] at hobject; cases hobject⟩
  obtain ⟨-, -, -, rfl⟩ | ⟨hfinal, hnone, rfl⟩ | ⟨-, rfl⟩ := Manager.start_cases h
  · exact { hheld with }
  · -- nothing was constructed before the built-in outbound
    have hrows : outboundRows config = [] := by
      rw [← viewDefault_eq_none, hm.default, Option.map_eq_none_iff, chosen, ← hm.defaultTag,
        if_pos hfinal] at hnone
      exact List.head?_eq_none_iff.mp hnone
    have hempty (tag : String) : (newOutbounds env config).outboundByTag.get? tag = none := by
      have hview := hm.outbounds tag
      rw [hrows] at hview
      exact Option.map_eq_none_iff.mp hview
    refine ⟨fun _ _ _ => ?_, fun object hobject => .inr ⟨fallback.tag, ?_⟩, hheld.nodup,
      fun object hobject => ?_⟩
    · change _ ∉ (newOutbounds env config).closed
      rw [hm.closed]
      exact List.not_mem_nil
    · obtain hlt | rfl := Nat.lt_succ_iff_lt_or_eq.mp hobject
      · obtain ⟨tag, htag⟩ := hm.complete object hlt
        cases (hempty tag).symm.trans htag
      · exact (Dict.get?_set _ _ _ _).trans (if_pos rfl)
    · exact Nat.lt_succ_of_lt (hheld.bounded object hobject)
  · exact hheld

end

structure Untouched (b b' : Box) : Prop where
  config : b'.config = b.config
  contentHash : b'.contentHash = b.contentHash
  revision : b'.revision = b.revision
  users : b'.users = b.users
  required : b'.required = b.required
  rules : Frame b.rules.router b'.rules.router
  outbounds : b'.outbounds.outboundByTag = b.outbounds.outboundByTag ∧
    b'.outbounds.outbounds = b.outbounds.outbounds ∧
    b'.outbounds.defaultOutbound = b.outbounds.defaultOutbound
  closedRules : ∀ rule, b.rules.router.constructed ≤ rule → rule < b'.rules.router.constructed →
    rule ∈ b'.rules.router.closed
  closedOutbounds : ∀ object, b.outbounds.constructed ≤ object → object < b'.outbounds.constructed →
    object ∈ b'.outbounds.closed

/-- A call that fails or has the content in use changes nothing, and one that succeeds raises the
revision by one. -/
def Atomic (env : Env) (call : Call) (b : Box) : Prop :=
  match (reloadUsers env call b).2 with
  | .failed _ => Untouched b (reloadUsers env call b).1
  | .accepted =>
    (reloadUsers env call b).1.revision = RuntimeCore.nextRevision b.revision ∧
      (reloadUsers env call b).1.config = call.updated
  | .unchanged =>
    env.lib.fingerprint (.obj call.updated) = b.contentHash ∧ (reloadUsers env call b).1 = b

/-- No object is closed twice, and none is left open that is not in use. -/
structure Tidy (b : Box) : Prop where
  rules : b.rules.router.closed.Nodup
  outbounds : b.outbounds.closed.Nodup
  unusedRules : b.rules.leases = [] → ∀ rule, rule < b.rules.router.constructed →
    rule ∉ b.rules.router.currentRules →
    rule ∈ b.rules.router.closed
  unusedOutbounds : ∀ object, object < b.outbounds.constructed →
    (∀ tag, b.outbounds.outboundByTag.get? tag ≠ some object) →
    object ∈ b.outbounds.closed

/-- An instance started without a default gets no outbound with the tag of the built-in one. -/
def Allowed (first : Object) : Action → Prop
  | .reload call =>
    needsFallback first → fallback.tag ∉ effectiveTags (rows call.updated "outbounds")
  | _ => True

section

variable {env : Env} {first : Object} {b : Box} {call : Call}

theorem rejected_closed_rules (hidle : b.rules.pending = none)
    (h : (reloadUsers env call b).2 ≠ .accepted) (rule : Nat)
    (hge : b.rules.router.constructed ≤ rule)
    (hlt : rule < (reloadUsers env call b).1.rules.router.constructed) :
    rule ∈ (reloadUsers env call b).1.rules.router.closed := by
  have hprepare : ∀ wanted, RuleLeases.step (.prepare wanted) b.rules = { b.rules with
      router := (b.rules.router.prepareAddedRules wanted).1
      pending := (b.rules.router.prepareAddedRules wanted).2 } := by
    intro wanted
    simp only [RuleLeases.step, hidle]
  have hends := reload_ends env call b
  generalize reloadUsers env call b = result at h hlt hends
  cases hends with
  | refused => exact absurd hlt (Nat.not_lt.mpr hge)
  | @rules plan _ _ _ hnone =>
    rw [hprepare] at hlt hnone ⊢
    obtain ⟨k, hbuilds, ⟨-, hclosed⟩ | ⟨-, next, hsome, -⟩⟩ :=
      b.rules.router.prepareAddedRules_cases (wantedRules call plan)
    · exact hclosed ▸ List.mem_append_right _
        (List.mem_range'_1.mpr ⟨hge, hbuilds.constructed ▸ hlt⟩)
    · cases hsome.symm.trans hnone
  | @outbounds plan _ _ p _ _ _ hp =>
    have hpending : (preparedRules b call plan).pending = some p := preparedRules_pending.trans hp
    rw [hprepare] at hp
    obtain ⟨k, hbuilds, ⟨hnone, -⟩ | ⟨-, next, hsome, -⟩⟩ :=
      b.rules.router.prepareAddedRules_cases (wantedRules call plan)
    · cases hnone.symm.trans hp
    cases hsome.symm.trans hp
    have hconstructed : (preparedRules b call plan).router.constructed =
        b.rules.router.constructed + k := by
      rw [preparedRules, run_leases_constructed, hprepare]
      exact hbuilds.constructed
    simp only [RuleLeases.step, hpending] at hlt ⊢
    exact List.mem_append_right _ (List.mem_range'_1.mpr ⟨hge, hconstructed ▸ hlt⟩)
  | accepted => exact absurd rfl h

theorem atomic (hidle : b.rules.pending = none) (call : Call) : Atomic env call b := by
  unfold Atomic
  split
  next error hfailed =>
    have hne : (reloadUsers env call b).2 ≠ .accepted := by rw [hfailed]; nofun
    obtain ⟨k, hbuilds, hclosed⟩ := rejected_outbounds hne
    have hframe := (rejected_rules hidle hne).1
    have hrules := rejected_closed_rules hidle hne
    obtain ⟨rules, outbounds, hsame⟩ := rejected_same hne
    rw [hsame] at hbuilds hclosed hframe hrules ⊢
    refine ⟨rfl, rfl, rfl, rfl, rfl, hframe,
      ⟨hbuilds.outboundByTag, hbuilds.outbounds, hbuilds.defaultOutbound⟩, hrules,
      fun object hge hlt => ?_⟩
    rw [hclosed]
    exact List.mem_append_right _ (List.mem_range'_1.mpr ⟨hge, hbuilds.constructed ▸ hlt⟩)
  next haccepted =>
    obtain ⟨plan, users, updates, p, outbounds, prepared, hreload⟩ := accepted_cases haccepted
    rw [hreload.result]
    exact ⟨rfl, rfl⟩
  next hunchanged => exact unchanged_same hunchanged

structure Balanced (env : Env) (first : Object) (b : Box) : Prop where
  serving : Serving env first b
  rules : RuleAccounts.Accounted b.rules
  outbounds : Held b.outbounds

theorem accounted_leases {rules : RuleLeases.State} (h : RuleAccounts.Accounted rules)
    (acquisitions : List (Option Nat)) :
    RuleAccounts.Accounted (run RuleLeases.step (acquisitions.map leaseAction) rules) := by
  induction acquisitions generalizing rules with
  | nil => exact h
  | cons acquisition acquisitions ih =>
    exact ih (RuleAccounts.step_accounted h (fun wanted heq => by cases acquisition <;> cases heq))

theorem accounted_reload (h : RuleAccounts.Accounted b.rules) (call : Call) :
    RuleAccounts.Accounted (reloadUsers env call b).1.rules := by
  have hprepare {plan users updates} (hplanned : Planned env call b plan users updates) :
      RuleAccounts.Accounted (RuleLeases.step (.prepare (wantedRules call plan)) b.rules) := by
    refine RuleAccounts.step_accounted h (fun wanted hwanted => ?_)
    cases hwanted
    exact (wantedRules_spec hplanned.decided).2.2
  have hends := reload_ends env call b
  generalize reloadUsers env call b = result at hends
  cases hends with
  | refused => exact h
  | rules hplanned => exact hprepare hplanned
  | outbounds hplanned =>
    exact @RuleAccounts.step_accounted _ (accounted_leases (hprepare hplanned) call.acquisitions)
      .abort nofun
  | accepted haccepted =>
    rw [haccepted.result]
    exact @RuleAccounts.step_accounted _
      (accounted_leases (hprepare haccepted.planned) call.acquisitions) .commit nofun

theorem held_reload (h : Balanced env first b) (hallowed : Allowed first (.reload call)) :
    Held (reloadUsers env call b).1.outbounds := by
  by_cases haccepted : (reloadUsers env call b).2 = .accepted
  · obtain ⟨plan, users, updates, p, outbounds, prepared, hreload⟩ := accepted_cases haccepted
    obtain ⟨s, hs⟩ := accepted hreload.planned.decided
    rw [hreload.result]
    exact h.outbounds.publish h.serving.outbounds hs (replacing hs hreload.ready)
      hallowed
  · obtain ⟨k, hbuilds, hclosed⟩ := rejected_outbounds haccepted
    exact h.outbounds.builds hbuilds hclosed h.serving.outbounds.bounded

theorem Balanced.step {action : Action} (h : Balanced env first b)
    (hallowed : Allowed first action) :
    Balanced env first (RuntimeBox.step env action b) := by
  refine ⟨h.serving.step action, ?_, ?_⟩
  · cases action with
    | reload call => exact accounted_reload h.rules call
    | lease acquisition => exact accounted_leases h.rules [acquisition]
    | newSession => exact h.rules
    | bind handle token =>
      simp only [RuntimeBox.step]
      split <;> exact h.rules
    | closeSession handle => exact h.rules
  · cases action with
    | reload call => exact held_reload h hallowed
    | lease acquisition => exact h.outbounds
    | newSession => exact h.outbounds
    | bind handle token =>
      simp only [RuntimeBox.step]
      split <;> exact h.outbounds
    | closeSession handle => exact h.outbounds

theorem start_balanced {instanceId : String} {config : Object} (hm : Marshalled config)
    (h : start env instanceId config = .ok b) : Balanced env config b := by
  have hserving := (start_serving hm h).1
  obtain ⟨_, hoptions, h⟩ := bind_eq_ok h
  obtain ⟨users, -, h⟩ := bind_eq_ok h
  obtain ⟨outbounds, houtbounds, h⟩ := bind_eq_ok h
  cases h
  exact ⟨hserving, RuleAccounts.accounted_ofRules _, start_held (of_require hoptions) houtbounds⟩

theorem Balanced.tidy (h : Balanced env first b) : Tidy b where
  rules := h.rules.closed_nodup
  outbounds := h.outbounds.nodup
  unusedRules hleases _ hrule hunused :=
    h.rules.closed_of_unused h.serving.rules.idle hleases hrule hunused
  unusedOutbounds object hobject hunused :=
    (h.outbounds.complete object hobject).resolve_right (fun ⟨tag, htag⟩ => hunused tag htag)

/-- As long as the built-in outbound is not displaced, every reload is atomic and no object
leaks. -/
theorem reloads_atomic_and_tidy {instanceId : String} {config : Object} {b₀ : Box}
    (hmarshalled : Marshalled config) (hstart : start env instanceId config = .ok b₀)
    (actions : List Action) (hallowed : Permitted (RuntimeBox.step env) (fun _ => Allowed config)
      actions b₀) :
    Tidy (run (RuntimeBox.step env) actions b₀) ∧
    ∀ call, Atomic env call (run (RuntimeBox.step env) actions b₀) := by
  have h := @run_invariant Box Action (RuntimeBox.step env) (fun _ => Allowed config)
    (Balanced env config) (fun _ _ h hstep => h.step hstep) actions b₀
    (start_balanced hmarshalled hstart) hallowed
  exact ⟨h.tidy, fun call => atomic h.serving.rules.idle call⟩

end

/-- The first outbound of an instance has a tag of its own. -/
theorem first_outbound_tidy : ∃ b₀, start directEnv "" (direct []) = .ok b₀ ∧
    (reloadUsers directEnv { updated := direct ["a"] } b₀).2 = .accepted ∧
      Tidy (run (RuntimeBox.step directEnv) [.reload { updated := direct ["a"] }] b₀) ∧
        ∀ call, Atomic directEnv call
        (run (RuntimeBox.step directEnv) [.reload { updated := direct ["a"] }] b₀) :=
  ⟨_, rfl, by decide, @reloads_atomic_and_tidy directEnv "" (direct []) _ (marshalled_direct []) rfl
    [.reload { updated := direct ["a"] }] ⟨fun _ => by decide, trivial⟩⟩

/-- The first outbound takes the tag of the built-in one, which is then neither mapped nor
closed. -/
theorem built_in_outbound_leaks : ∃ b₀, start directEnv "" (direct []) = .ok b₀ ∧
    (reloadUsers directEnv { updated := direct ["direct"] } b₀).2 = .accepted ∧
      ¬Tidy (run (RuntimeBox.step directEnv) [.reload { updated := direct ["direct"] }] b₀) := by
  refine ⟨_, rfl, by decide, fun htidy => ?_⟩
  have hclosed := htidy.unusedOutbounds 0 (by decide) (fun tag htag => ?_)
  · revert hclosed
    decide
  · have hmem := List.mem_map_of_mem (f := Prod.snd) (Dict.mem_entries_iff.mpr htag)
    dsimp only at hmem
    revert hmem
    decide

end NodeManager.ReloadAtomicity
