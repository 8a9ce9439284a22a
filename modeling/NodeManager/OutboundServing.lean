import NodeManager.ReloadedOutbounds

namespace NodeManager.OutboundServing

open Dictionary JsonValues Runs UserReload ReloadPlans RuntimeBox OutboundManager ReloadedOutbounds

inductive DefaultRoute
  | outbound (made : Made)
  | endpoint (tag : String)
  deriving DecidableEq

def viewOutbound (m : Manager) (tag : String) : Option Made := (m.outboundByTag.get? tag).map m.made

def viewDefault (m : Manager) : Option DefaultRoute :=
  m.defaultOutbound.map (fun target =>
    match target with
    | .outbound object => .outbound (m.made object)
    | .endpoint tag => .endpoint tag)

def needsFallback (config : Object) : Bool := finalTag config = "" && rows config "outbounds" = []

def coldOutbound (config : Object) (tag : String) : Option Made :=
  match (outboundRows config).lookup tag with
  | some row => some ⟨tag, row⟩
  | none => if needsFallback config ∧ tag = fallback.tag then some fallback else none

def chosen (final : String) (list : List (String × Object)) : Option (String × Object) :=
  if final = "" then list.head? else list.find? (·.1 = final)

def coldDefault (config : Object) : DefaultRoute :=
  match chosen (finalTag config) (outboundRows config) with
  | some (tag, row) => .outbound ⟨tag, row⟩
  | none => if finalTag config = "" then .outbound fallback else .endpoint (finalTag config)

/-- The manager serves the configuration, after a start from the first one. If that needed the
built-in outbound, it stays the default and can be left in the map. -/
structure Serves (first : Object) (m : Manager) (config : Object) : Prop where
  final : finalTag config = finalTag first
  rows : ∀ tag row, (outboundRows config).lookup tag = some row →
    viewOutbound m tag = some ⟨tag, row⟩
  others : ∀ tag, (outboundRows config).lookup tag = none → viewOutbound m tag = none ∨
    (needsFallback first ∧ tag = fallback.tag ∧ viewOutbound m tag = some fallback)
  default : viewDefault m = some (if needsFallback first then .outbound fallback
    else coldDefault config)
  needed : needsFallback config → needsFallback first ∧ viewOutbound m fallback.tag = some fallback
  bounded : ∀ tag object, m.outboundByTag.get? tag = some object → object < m.constructed
  defaultBounded : ∀ object, m.defaultOutbound = some (.outbound object) → object < m.constructed
  mapped : ¬needsFallback first → ∀ object, m.defaultOutbound = some (.outbound object) →
    m.outboundByTag.get? (m.made object).tag = some object
  endpoint : finalTag config ≠ "" → chosen (finalTag config) (outboundRows config) = none →
    finalTag config ∈ effectiveTags (JsonValues.rows config "endpoints")

theorem chosen_append {final : String} {list : List (String × Object)} {tag : String} {row : Object}
    (htag : tag ≠ "") (hnew : tag ∉ list.map Prod.fst) : chosen final (list ++ [(tag, row)]) =
      if tag = final ∨ (final = "" ∧ chosen final list = none) then some (tag, row)
      else chosen final list := by
  unfold chosen
  by_cases hfinal : final = ""
  · cases list <;> simp [hfinal, htag]
  by_cases heq : tag = final
  · have hfind : list.find? (fun entry => entry.1 = final) = none := by
      refine List.find?_eq_none.mpr (fun entry hentry hentry' => hnew ?_)
      rw [heq, ← of_decide_eq_true hentry']
      exact List.mem_map_of_mem hentry
    simp [hfinal, heq, hfind]
  · simp [hfinal, heq]

structure Creating (final : String) (endpoints : List String) (seen : List (String × Object))
    (m : Manager) : Prop where
  outbounds : ∀ tag, viewOutbound m tag = (seen.lookup tag).map (Made.mk tag)
  default : viewDefault m = (chosen final seen).map (fun entry => .outbound ⟨entry.1, entry.2⟩)
  bounded : ∀ tag object, m.outboundByTag.get? tag = some object → object < m.constructed
  mapped : ∀ target, m.defaultOutbound = some target →
    ∃ object, target = .outbound object ∧ m.outboundByTag.get? (m.made object).tag = some object
  defaultTag : m.defaultTag = final
  endpoints : m.endpoints = endpoints
  closed : m.closed = []
  complete : ∀ object, object < m.constructed → ∃ tag, m.outboundByTag.get? tag = some object

variable {m : Manager}

theorem viewDefault_congr {m' : Manager} (hdefault : m'.defaultOutbound = m.defaultOutbound)
    (hmade : ∀ object, m.defaultOutbound = some (.outbound object) →
      m'.made object = m.made object) :
    viewDefault m' = viewDefault m := by
  unfold viewDefault
  rw [hdefault]
  cases h : m.defaultOutbound with
  | none => rfl
  | some target =>
    cases target with
    | outbound object => simp [hmade object h]
    | endpoint tag => rfl

theorem viewDefault_eq_none : viewDefault m = none ↔ m.defaultOutbound = none := by
  simp [viewDefault]

variable {final : String} {endpoints : List String} {seen : List (String × Object)}
  {config : Object}

theorem Creating.create (h : Creating final endpoints seen m) {tag : String} {row : Object}
    (htag : tag ≠ "") (hnew : tag ∉ seen.map Prod.fst) (dependencies : Object → List String) :
    Creating final endpoints (seen ++ [(tag, row)]) (m.create dependencies ⟨tag, row⟩) := by
  have hget (tag' : String) : (m.create dependencies ⟨tag, row⟩).outboundByTag.get? tag' =
      if tag' = tag then some m.constructed else m.outboundByTag.get? tag' := Dict.get?_set _ _ _ _
  have hmade {object : Outbound} (hobject : object < m.constructed) :
      (m.create dependencies ⟨tag, row⟩).made object = m.made object :=
    Function.update_of_ne (Nat.ne_of_lt hobject) _ _
  have hself : (m.create dependencies ⟨tag, row⟩).made m.constructed = ⟨tag, row⟩ :=
    Function.update_self _ _ _
  have hlookup : seen.lookup tag = none := Dict.lookup_eq_none.mpr hnew
  have habsent {object : Outbound} : m.outboundByTag.get? tag ≠ some object := by
    intro hobject
    have hview := h.outbounds tag
    rw [viewOutbound, hobject, hlookup] at hview
    cases hview
  have hdefault : (m.create dependencies ⟨tag, row⟩).defaultOutbound =
      if tag = final ∨ (final = "" ∧ chosen final seen = none) then some (.outbound m.constructed)
      else m.defaultOutbound := by
    have hnone : m.defaultOutbound = none ↔ chosen final seen = none := by
      rw [← viewDefault_eq_none, h.default, Option.map_eq_none_iff]
    rw [← h.defaultTag] at hnone ⊢
    simp only [Manager.create, hnone]
  refine ⟨fun tag' => ?_, ?_, fun tag' object hobject => ?_, fun target htarget => ?_, h.defaultTag,
    h.endpoints, h.closed, fun object hobject => ?_⟩
  · rw [viewOutbound, hget, List.lookup_append]
    by_cases heq : tag' = tag
    · subst heq
      simp [hself, hlookup]
    have hb : (tag' == tag) = false := beq_false_of_ne heq
    have hview := h.outbounds tag'
    rw [if_neg heq]
    simp only [List.lookup_cons, hb, List.lookup_nil, Option.or_none]
    rw [← hview, viewOutbound]
    cases hobject : m.outboundByTag.get? tag' with
    | none => rfl
    | some object => simp [hmade (h.bounded tag' object hobject)]
  · rw [chosen_append htag hnew]
    split at hdefault
    next hchosen => simp [viewDefault, hdefault, hself, if_pos hchosen]
    next hchosen =>
      rw [if_neg hchosen, ← h.default]
      refine viewDefault_congr hdefault (fun object hobject => ?_)
      obtain ⟨_, heq, hmapped⟩ := h.mapped _ hobject
      cases heq
      exact hmade (h.bounded _ object hmapped)
  · rw [hget] at hobject
    split at hobject
    · cases hobject
      exact Nat.lt_succ_self _
    · exact Nat.lt_succ_of_lt (h.bounded tag' object hobject)
  · rw [htarget] at hdefault
    split at hdefault
    · cases hdefault
      exact ⟨m.constructed, rfl, by rw [hself, hget, if_pos rfl]⟩
    obtain ⟨object, heq, hmapped⟩ := h.mapped target hdefault.symm
    have hne : (m.made object).tag ≠ tag := fun htag => habsent (htag ▸ hmapped)
    exact ⟨object, heq, by rw [hmade (h.bounded _ object hmapped), hget, if_neg hne, hmapped]⟩
  · obtain hlt | rfl := Nat.lt_succ_iff_lt_or_eq.mp hobject
    · obtain ⟨tag', hmapped⟩ := h.complete object hlt
      have hne : tag' ≠ tag := fun htag => habsent (htag ▸ hmapped)
      exact ⟨tag', by rw [hget, if_neg hne, hmapped]⟩
    · exact ⟨tag, by rw [hget, if_pos rfl]⟩

theorem newOutbounds_creating (env : Env) (h : checkOptions config = true) :
    Creating (finalTag config) (effectiveTags (rows config "endpoints")) (outboundRows config)
      (newOutbounds env config) := by
  have hempty : Creating (finalTag config) (effectiveTags (rows config "endpoints")) []
      { defaultTag := finalTag config, endpoints := effectiveTags (rows config "endpoints") } :=
    ⟨fun _ => rfl, by simp [viewDefault, chosen], nofun, nofun, rfl, rfl, rfl, nofun⟩
  refine @foldl_seen _ _ (Creating (finalTag config) (effectiveTags (rows config "endpoints")))
    _ _ _ hempty (fun seen entry rest m hsplit hm => ?_)
  have hnodup := outboundRows_nodup h
  rw [hsplit, List.map_append, List.nodup_append] at hnodup
  have hentry : entry ∈ outboundRows config := by simp [hsplit]
  refine hm.create (tag_ne_empty hentry) (fun hmem => ?_) env.dependencies
  exact hnodup.2.2 _ hmem _ (by simp) rfl

theorem needsFallback_iff : needsFallback config = true ↔
    finalTag config = "" ∧ chosen (finalTag config) (outboundRows config) = none := by
  rw [needsFallback, Bool.and_eq_true, decide_eq_true_eq, decide_eq_true_eq]
  refine and_congr_right (fun hfinal => ?_)
  simp [chosen, hfinal, outboundRows, taggedRows]

theorem lookup_of_needsFallback (h : needsFallback config = true) (tag : String) :
    (outboundRows config).lookup tag = none := by
  rw [needsFallback, Bool.and_eq_true, decide_eq_true_eq, decide_eq_true_eq] at h
  rw [outboundRows, h.2]
  rfl

theorem start_serves {env : Env} (hoptions : checkOptions config = true)
    (h : (newOutbounds env config).start = .ok m) :
    Serves config m config := by
  have hm := newOutbounds_creating env hoptions
  have hnone : (newOutbounds env config).defaultOutbound = none ↔
      chosen (finalTag config) (outboundRows config) = none := by
    rw [← viewDefault_eq_none, hm.default, Option.map_eq_none_iff]
  have hdefault (object : Outbound)
      (hobject : (newOutbounds env config).defaultOutbound = some (.outbound object)) :
      (newOutbounds env config).outboundByTag.get? ((newOutbounds env config).made object).tag =
      some object := by
    obtain ⟨_, heq, hmapped⟩ := hm.mapped _ hobject
    cases heq
    exact hmapped
  have hview {tag : String} {row : Option Object} (hrow : (outboundRows config).lookup tag = row) :
      viewOutbound (newOutbounds env config) tag = row.map (Made.mk tag) := by
      rw [hm.outbounds, hrow]
  obtain ⟨hfinal, hempty, hendpoint, rfl⟩ | ⟨hfinal, hempty, rfl⟩ | ⟨hsome, rfl⟩ :=
    Manager.start_cases h
  · rw [hm.defaultTag] at hfinal hendpoint
    rw [hm.endpoints] at hendpoint
    rw [hnone] at hempty
    have hneeds : ¬needsFallback config := fun hneeds => hfinal (needsFallback_iff.mp hneeds).1
    refine ⟨rfl, fun _ _ hrow => hview hrow, fun _ hrow => .inl (hview hrow), ?_, (absurd · hneeds),
      hm.bounded, nofun, nofun, fun _ _ => hendpoint⟩
    simp [viewDefault, hm.defaultTag, hneeds, coldDefault, hempty, hfinal]
  · rw [hm.defaultTag] at hfinal
    rw [hnone] at hempty
    have hneeds : needsFallback config = true := needsFallback_iff.mpr ⟨hfinal, hempty⟩
    have hrows : outboundRows config = [] := by
      rw [chosen, if_pos hfinal] at hempty
      exact List.head?_eq_none_iff.mp hempty
    have hadded (tag : String) : viewOutbound
        { (newOutbounds env config).newOutbound fallback with
          outbounds := (newOutbounds env config).outbounds ++
            [(newOutbounds env config).constructed]
          outboundByTag := (newOutbounds env config).outboundByTag.set fallback.tag
            (newOutbounds env config).constructed
          defaultOutbound := some (.outbound (newOutbounds env config).constructed) } tag =
        if tag = fallback.tag then some fallback else none := by
      have hnothing := hm.outbounds tag
      rw [hrows, viewOutbound, List.lookup_nil, Option.map_none, Option.map_eq_none_iff] at hnothing
      rw [viewOutbound, Dict.get?_set, hnothing]
      split
      · simp [Manager.newOutbound]
      · rfl
    refine ⟨rfl, fun tag row hrow => ?_, fun tag _ => ?_, ?_, fun _ => ⟨hneeds, ?_⟩,
      fun tag object hobject => ?_, ?_, fun hnot => absurd hneeds hnot,
      fun hne => absurd hfinal hne⟩
    · rw [hrows] at hrow
      cases hrow
    · rw [hadded]
      split
      next heq => exact .inr ⟨hneeds, heq, rfl⟩
      · exact .inl rfl
    · simp [viewDefault, hneeds, Manager.newOutbound]
    · rw [hadded, if_pos rfl]
    · rw [Dict.get?_set] at hobject
      split at hobject
      · cases hobject
        exact Nat.lt_succ_self _
      · exact Nat.lt_succ_of_lt (hm.bounded tag object hobject)
    · rintro object hobject
      cases hobject
      exact Nat.lt_succ_self _
  · rw [ne_eq, hnone] at hsome
    obtain ⟨⟨tag, row⟩, hchosen⟩ := Option.ne_none_iff_exists'.mp hsome
    have hneeds : ¬needsFallback config := fun hneeds => hsome (needsFallback_iff.mp hneeds).2
    refine ⟨rfl, fun _ _ hrow => hview hrow, fun _ hrow => .inl (hview hrow), ?_,
      (absurd · hneeds), hm.bounded,
      fun object hobject => hm.bounded _ object (hdefault object hobject), fun _ => hdefault,
      fun _ hne => absurd hne hsome⟩
    rw [hm.default]
    simp [hneeds, coldDefault, hchosen]

def Marshalled (config : Object) : Prop :=
  ∀ value, field (nested config "route") "final" = some value → ∃ tag, value = .str tag ∧ tag ≠ ""

section

variable {env : Env} {before after : Object} {plan : UserUpdatePlan} {s : Stages}
  {entry : String × Object}

theorem final_same (h : Accepted env.lib before after plan s) :
    field (nested after "route") "final" = field (nested before "route") "final" := by
  have hfield := congrArg (field · "final") h.route
  simpa [field_without] using hfield.symm

theorem finalTag_same (h : Accepted env.lib before after plan s) :
    finalTag after = finalTag before := by
  rw [finalTag, finalTag, text, text, final_same h]

theorem Marshalled.accepted (hm : Marshalled before) (h : Accepted env.lib before after plan s) :
    Marshalled after := by
  intro value hvalue
  rw [final_same h] at hvalue
  exact hm value hvalue

theorem Marshalled.final_none (hm : Marshalled before) (h : finalTag before = "") :
    field (nested before "route") "final" = none := by
  cases hfield : field (nested before "route") "final" with
  | none => rfl
  | some value =>
    obtain ⟨tag, rfl, htag⟩ := hm value hfield
    rw [finalTag, text, hfield] at h
    exact absurd h htag

theorem endpoints_same (h : Accepted env.lib before after plan s) :
    rows after "endpoints" = rows before "endpoints" := by
  have hfield := congrArg (field · "endpoints") h.topology.2
  have hsame : field before "endpoints" = field after "endpoints" := by
    simpa [field_without] using hfield
  rw [rows, rows, hsame]

theorem lookup_before (h : Accepted env.lib before after plan s) (tag : String) :
    (outboundRows before).lookup tag = s.oldOut.get? tag := by
  rw [outboundRows, taggedRows_eq h.oldOut]
  rfl

theorem lookup_after (h : Accepted env.lib before after plan s) (tag : String) :
    (outboundRows after).lookup tag = s.newOut.get? tag := by
  rw [outboundRows, taggedRows_eq h.newOut]
  rfl

theorem head_same (hm : Marshalled before) (h : Accepted env.lib before after plan s)
    (hfinal : finalTag before = "") (hentry : (outboundRows before).head? = some entry) :
    ∃ row, (outboundRows after).head? = some (entry.1, row) := by
  have hkeeps := h.final
  rw [keepsDefault, hm.final_none hfinal] at hkeeps
  have hold := (namedRows_ok h.oldOut).2
  have hnew := (namedRows_ok h.newOut).2
  unfold outboundRows taggedRows at hentry ⊢
  revert hkeeps hentry hold hnew
  cases rows before "outbounds" with
  | nil => simp
  | cons old olds =>
    cases rows after "outbounds" with
    | nil => simp
    | cons next nexts =>
      intro hentry hkeeps hold hnew
      obtain ⟨⟨row, rfl⟩, htag⟩ := hold old List.mem_cons_self
      obtain ⟨⟨row', rfl⟩, htag'⟩ := hnew next List.mem_cons_self
      have hsame : field row "tag" = field row' "tag" := of_decide_eq_true hkeeps
      have htags : tagOf (.obj row') = tagOf (.obj row) := by
        rw [tagOf_obj, tagOf_obj, text, text, hsame]
      have hfirst : (tagOf (.obj row), row) = entry := by simpa [htag, Json.object?] using hentry
      refine ⟨row', ?_⟩
      rw [← hfirst, ← htags]
      simp [htag', Json.object?]

theorem needsFallback_accepted (hm : Marshalled before) (h : Accepted env.lib before after plan s)
    (hneeds : needsFallback after = true) : needsFallback before = true := by
  obtain ⟨hfinal, hnone⟩ := needsFallback_iff.mp hneeds
  rw [finalTag_same h] at hfinal hnone
  refine needsFallback_iff.mpr ⟨hfinal, ?_⟩
  rw [chosen, if_pos hfinal] at hnone ⊢
  cases hhead : (outboundRows before).head? with
  | none => rfl
  | some entry =>
    obtain ⟨row, hrow⟩ := head_same hm h hfinal hhead
    cases hrow.symm.trans hnone

theorem lookup_of_chosen {final : String} {list : List (String × Object)}
    (hnodup : (list.map Prod.fst).Nodup) (h : chosen final list = some entry) :
    list.lookup entry.1 = some entry.2 := by
  have hmem : entry ∈ list := by
    unfold chosen at h
    split at h
    · exact List.mem_of_mem_head? h
    · exact List.mem_of_find?_eq_some h
  exact Dict.mem_entries_iff.mp (show entry ∈ (Dict.mk list hnodup).entries from hmem)

theorem chosen_same (hm : Marshalled before) (h : Accepted env.lib before after plan s)
    (hchosen : chosen (finalTag before) (outboundRows before) = some entry)
    (hsame : s.newOut.get? entry.1 = some entry.2) :
    chosen (finalTag after) (outboundRows after) = some entry := by
  have hrows : outboundRows after = s.newOut.entries := taggedRows_eq h.newOut
  have hunique (found : String × Object) (hfound : found ∈ outboundRows after)
      (htag : found.1 = entry.1) :
      found = entry := by
    rw [hrows] at hfound
    have hget : s.newOut.get? found.1 = some found.2 := Dict.mem_entries_iff.mp hfound
    rw [htag, hsame] at hget
    exact Prod.ext htag (Option.some.inj hget).symm
  rw [finalTag_same h]
  unfold chosen at hchosen ⊢
  split at hchosen
  next hfinal =>
    obtain ⟨row, hrow⟩ := head_same hm h hfinal hchosen
    rw [if_pos hfinal, hrow, hunique _ (List.mem_of_mem_head? hrow) rfl]
  next hfinal =>
    have htag : entry.1 = finalTag before := by simpa using List.find?_some hchosen
    have hmem : entry ∈ outboundRows after := hrows ▸ Dict.mem_entries_iff.mpr hsame
    have hsome : ((outboundRows after).find? (fun found => found.1 = finalTag before)).isSome :=
      List.find?_isSome.mpr ⟨entry, hmem, decide_eq_true htag⟩
    obtain ⟨found, hfound⟩ := Option.isSome_iff_exists.mp hsome
    have htag' : found.1 = finalTag before := by simpa using List.find?_some hfound
    rw [if_neg hfinal, hfound, hunique found (List.mem_of_find?_eq_some hfound)
      (htag'.trans htag.symm)]

theorem chosen_endpoint {config : Object} (hoptions : checkOptions config = true)
    (hfinal : finalTag config ≠ "")
    (hendpoint : finalTag config ∈ effectiveTags (rows config "endpoints")) :
    chosen (finalTag config) (outboundRows config) = none := by
  rw [checkOptions, Bool.and_eq_true, decide_eq_true_eq, decide_eq_true_eq] at hoptions
  rw [chosen, if_neg hfinal]
  refine List.find?_eq_none.mpr (fun entry hentry htag => ?_)
  have hmem : entry.1 ∈ effectiveTags (rows config "outbounds") := List.mem_map_of_mem hentry
  exact (List.nodup_append.mp hoptions.2).2.2 _ hmem _ hendpoint (of_decide_eq_true htag)

variable {first : Object} {outbounds : Manager} {prepared : List Outbound} {removed : List String}

section

variable (h : Serves first m before)
include h

section

variable (hneeds : ¬needsFallback first)
include hneeds

theorem Serves.default_object (hchosen : chosen (finalTag before) (outboundRows before) =
    some entry) :
    ∃ object, m.defaultOutbound = some (.outbound object) ∧ m.made object = ⟨entry.1, entry.2⟩ := by
  have hdefault := h.default
  rw [if_neg hneeds, viewDefault, coldDefault, hchosen] at hdefault
  obtain ⟨target, htarget, hview⟩ := Option.map_eq_some_iff.mp hdefault
  cases target with
  | outbound object => exact ⟨object, htarget, by simpa using hview⟩
  | endpoint tag => cases hview

theorem Serves.final_ne (hnone : chosen (finalTag before) (outboundRows before) = none) :
    finalTag before ≠ "" :=
  fun hfinal => hneeds (h.needed (needsFallback_iff.mpr ⟨hfinal, hnone⟩)).1

theorem Serves.default_entry {object : Outbound}
    (hobject : m.defaultOutbound = some (.outbound object)) :
    ∃ entry, chosen (finalTag before) (outboundRows before) = some entry ∧
    m.made object = ⟨entry.1, entry.2⟩ := by
  cases hchosen : chosen (finalTag before) (outboundRows before) with
  | some entry =>
    obtain ⟨object', hobject', hmade⟩ := h.default_object hneeds hchosen
    cases hobject.symm.trans hobject'
    exact ⟨entry, rfl, hmade⟩
  | none =>
    have hdefault := h.default
    rw [if_neg hneeds, viewDefault, hobject, coldDefault, hchosen] at hdefault
    simp [h.final_ne hneeds hchosen] at hdefault

theorem Serves.row_kept (ha : Accepted env.lib before after plan s)
    (hr : Replacing s m outbounds prepared removed)
    (hchosen : chosen (finalTag before) (outboundRows before) = some entry) :
    s.oldOut.get? entry.1 = some entry.2 ∧ s.newOut.get? entry.1 = some entry.2 := by
  have hrows : outboundRows before = s.oldOut.entries := taggedRows_eq ha.oldOut
  have hold : s.oldOut.get? entry.1 = some entry.2 := by
    rw [← lookup_before ha]
    exact lookup_of_chosen (hrows ▸ s.oldOut.nodup) hchosen
  refine ⟨hold, by_contra (fun hnew => ?_)⟩
  obtain ⟨object, hobject, hmade⟩ := h.default_object hneeds hchosen
  obtain ⟨old, hget, hne⟩ := hr.removable entry.1 ((hr.mem_removed _).mpr ⟨entry.2, hold, hnew⟩)
  have hmapped := h.mapped hneeds object hobject
  rw [hmade, hget] at hmapped
  exact hne (hobject.trans (by rw [Option.some.inj hmapped]))

theorem Serves.chosen_same (hm : Marshalled before)
    (ha : Accepted env.lib before after plan s) (hoptions : checkOptions after = true)
    (hr : Replacing s m outbounds prepared removed) :
    chosen (finalTag after) (outboundRows after) =
    chosen (finalTag before) (outboundRows before) := by
  cases hchosen : chosen (finalTag before) (outboundRows before) with
  | some entry =>
    exact OutboundServing.chosen_same hm ha hchosen (h.row_kept hneeds ha hr hchosen).2
  | none =>
    have hfinal := h.final_ne hneeds hchosen
    have hendpoint := h.endpoint hfinal hchosen
    rw [← endpoints_same ha, ← finalTag_same ha] at hendpoint
    rw [← finalTag_same ha] at hfinal
    exact chosen_endpoint hoptions hfinal hendpoint

end

theorem Serves.publish (hm : Marshalled before) (ha : Accepted env.lib before after plan s)
    (hoptions : checkOptions after = true) (hr : Replacing s m outbounds prepared removed)
    (objects : List Outbound) :
    Serves first ((outbounds.publish prepared removed).closeOutbounds objects) after := by
  -- nobody sees which outbounds are closed
  suffices hserves : Serves first (outbounds.publish prepared removed) after from { hserves with }
  obtain ⟨k, hbuilds, hprepared⟩ := hr.built
  have hsame {tag : String} (heq : s.newOut.get? tag = s.oldOut.get? tag) :
      viewOutbound (outbounds.publish prepared removed) tag = viewOutbound m tag := by
    change ((outbounds.publish prepared removed).outboundByTag.get? tag).map outbounds.made = _
    rw [hr.get?_same heq, viewOutbound]
    cases hobject : m.outboundByTag.get? tag with
    | none => rfl
    | some object => simp [hbuilds.made object (h.bounded tag object hobject)]
  have hchanged {tag : String} {row : Object} (hnew : s.newOut.get? tag = some row)
      (hold : s.oldOut.get? tag ≠ some row) :
      viewOutbound (outbounds.publish prepared removed) tag = some ⟨tag, row⟩ := by
    obtain ⟨object, -, hobject, hmade⟩ := hr.get?_changed hnew hold
    change ((outbounds.publish prepared removed).outboundByTag.get? tag).map outbounds.made = _
    rw [hobject, Option.map_some, hmade]
  have hunset : (outbounds.publish prepared removed).defaultOutbound = m.defaultOutbound :=
    hbuilds.defaultOutbound
  have hdefault : viewDefault (outbounds.publish prepared removed) = viewDefault m :=
    viewDefault_congr hunset (fun object hobject =>
      hbuilds.made object (h.defaultBounded object hobject))
  have hconstructed : outbounds.constructed = m.constructed + k := hbuilds.constructed
  refine ⟨(finalTag_same ha).trans h.final, fun tag row hrow => ?_, fun tag hrow => ?_, ?_,
    fun hneeds => ?_, fun tag object hobject => ?_, fun object hobject => ?_,
    fun hneeds object hobject => ?_, fun hfinal hnone => ?_⟩
  · rw [lookup_after ha] at hrow
    by_cases hold : s.oldOut.get? tag = some row
    · rw [hsame (hrow.trans hold.symm)]
      exact h.rows tag row (by rw [lookup_before ha, hold])
    · exact hchanged hrow hold
  · rw [lookup_after ha] at hrow
    cases hold : s.oldOut.get? tag with
    | some row =>
      left
      change ((outbounds.publish prepared removed).outboundByTag.get? tag).map outbounds.made = _
      rw [hr.get?_removed hold hrow, Option.map_none]
    | none =>
      rw [hsame (hrow.trans hold.symm)]
      exact h.others tag (by rw [lookup_before ha, hold])
  · rw [hdefault, h.default]
    split
    · rfl
    next hneeds =>
      rw [coldDefault, coldDefault, h.chosen_same hneeds hm ha hoptions hr, finalTag_same ha]
  · have hbefore := needsFallback_accepted hm ha hneeds
    obtain ⟨hfirst, hview⟩ := h.needed hbefore
    refine ⟨hfirst, (hsame ?_).trans hview⟩
    rw [← lookup_after ha, ← lookup_before ha, lookup_of_needsFallback hneeds,
      lookup_of_needsFallback hbefore]
  · have hget := (hr.get? tag).symm.trans hobject
    change object < outbounds.constructed
    rw [hconstructed]
    cases hfind : prepared.find? (fun object => (outbounds.made object).tag = tag) with
    | some found =>
      rw [hfind, Option.some_or] at hget
      cases hget
      rw [hprepared] at hfind
      exact (List.mem_range'_1.mp (List.mem_of_find?_eq_some hfind)).2
    | none =>
      rw [hfind, Option.none_or] at hget
      split at hget
      · cases hget
      · exact Nat.lt_of_lt_of_le (h.bounded tag object hget) (Nat.le_add_right _ _)
  · rw [hunset] at hobject
    exact Nat.lt_of_lt_of_le (h.defaultBounded object hobject) (hconstructed ▸ Nat.le_add_right _ _)
  · rw [hunset] at hobject
    change (outbounds.publish prepared removed).outboundByTag.get?
      (outbounds.made object).tag = some object
    obtain ⟨entry, hchosen, hmade⟩ := h.default_entry hneeds hobject
    obtain ⟨hold, hnew⟩ := h.row_kept hneeds ha hr hchosen
    have hmapped := h.mapped hneeds object hobject
    rw [hmade] at hmapped
    rw [hbuilds.made object (h.defaultBounded object hobject), hmade,
      hr.get?_same (hnew.trans hold.symm), hmapped]
  · by_cases hneeds : needsFallback first = true
    · refine absurd ?_ hfinal
      rw [finalTag_same ha, h.final]
      exact (needsFallback_iff.mp hneeds).1
    · rw [h.chosen_same hneeds hm ha hoptions hr] at hnone
      rw [finalTag_same ha] at hfinal ⊢
      rw [endpoints_same ha]
      exact h.endpoint hfinal hnone

theorem Serves.builds {m' : Manager} {k : Nat} (hbuilds : Manager.Builds m m' k) :
    Serves first m' before := by
  have hview (tag : String) : viewOutbound m' tag = viewOutbound m tag := by
    rw [viewOutbound, viewOutbound, hbuilds.outboundByTag]
    cases hobject : m.outboundByTag.get? tag with
    | none => rfl
    | some object => simp [hbuilds.made object (h.bounded tag object hobject)]
  have hgrown : m.constructed ≤ m'.constructed := hbuilds.constructed ▸ Nat.le_add_right _ _
  refine ⟨h.final, ?_, ?_, ?_, ?_, fun tag object hobject => ?_, fun object hobject => ?_,
    fun hneeds object hobject => ?_, h.endpoint⟩
  · simpa only [hview] using h.rows
  · simpa only [hview] using h.others
  · rw [viewDefault_congr hbuilds.defaultOutbound
      (fun object hobject => hbuilds.made object (h.defaultBounded object hobject)), h.default]
  · simpa only [hview] using h.needed
  · rw [hbuilds.outboundByTag] at hobject
    exact Nat.lt_of_lt_of_le (h.bounded tag object hobject) hgrown
  · rw [hbuilds.defaultOutbound] at hobject
    exact Nat.lt_of_lt_of_le (h.defaultBounded object hobject) hgrown
  rw [hbuilds.defaultOutbound] at hobject
  rw [hbuilds.made object (h.defaultBounded object hobject), hbuilds.outboundByTag]
  exact h.mapped hneeds object hobject

end

end

theorem coldDefault_of_needsFallback (h : needsFallback config = true) :
    coldDefault config = .outbound fallback := by
  obtain ⟨hfinal, hnone⟩ := needsFallback_iff.mp h
  rw [coldDefault, hnone]
  exact if_pos hfinal

def StartsBuiltIn (config : Object) : Prop :=
  ∀ entry ∈ (outboundRows config).head?, entry = (fallback.tag, fallback.options)

theorem coldDefault_eq_fallback_iff (hfinal : finalTag config = "") :
    coldDefault config = .outbound fallback ↔ StartsBuiltIn config := by
  rw [coldDefault, chosen, if_pos hfinal, if_pos hfinal, StartsBuiltIn]
  cases (outboundRows config).head? with
  | none => simp
  | some entry => simp [fallback, Prod.ext_iff]

theorem Serves.outbounds_eq {first : Object} (h : Serves first m config)
    (hbuilt : needsFallback first → StartsBuiltIn config) :
    viewOutbound m = coldOutbound config := by
  funext tag
  unfold coldOutbound
  split
  next row hrow => exact h.rows tag row hrow
  next hrow =>
    split
    next hneeds => rw [hneeds.2, (h.needed hneeds.1).2]
    next hneeds =>
      obtain hnone | ⟨hneeded, htag, -⟩ := h.others tag hrow
      · exact hnone
      have hfinal : finalTag config = "" := h.final.trans (needsFallback_iff.mp hneeded).1
      cases hhead : (outboundRows config).head? with
      | none =>
        refine absurd ⟨needsFallback_iff.mpr ⟨hfinal, ?_⟩, htag⟩ hneeds
        rw [chosen, if_pos hfinal, hhead]
      | some entry =>
        have hentry := hbuilt hneeded entry hhead
        have hmem : entry.1 ∈ (outboundRows config).map Prod.fst :=
          List.mem_map_of_mem (List.mem_of_mem_head? hhead)
        rw [Dict.lookup_eq_none, htag] at hrow
        rw [hentry] at hmem
        exact absurd hmem hrow

end NodeManager.OutboundServing
