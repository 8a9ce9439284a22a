import NodeManager.ReloadCases

namespace NodeManager.ReloadedOutbounds

open Dictionary JsonValues UserReload ReloadPlans RuntimeBox ReloadCases OutboundManager

def outboundRows (config : Object) : List (String × Object) := taggedRows (rows config "outbounds")

theorem tag_ne_empty {list : List Json} {entry : String × Object} (h : entry ∈ taggedRows list) :
    entry.1 ≠ "" := by
  obtain ⟨value, -, rfl⟩ := List.mem_map.mp h
  split
  · exact Nat.repr_ne_empty
  · assumption

theorem outboundRows_nodup {config : Object} (h : checkOptions config = true) :
    ((outboundRows config).map Prod.fst).Nodup := by
  rw [checkOptions, Bool.and_eq_true, decide_eq_true_eq, decide_eq_true_eq] at h
  exact (List.nodup_append.mp h.2).1

theorem taggedRows_eq {object : Object} {key : String} {result : Dict String Object}
    (h : namedRows (field object key) = .ok result) :
    taggedRows (rows object key) = result.entries := by
  obtain ⟨hentries, hrows⟩ := namedRows_ok h
  rw [hentries, filterMap_tagged hrows, taggedRows]
  conv_rhs => rw [← List.zipIdx_map_fst 0 (rows object key), List.map_map]
  refine List.map_congr_left (fun entry hentry => ?_)
  obtain ⟨⟨row, hrow⟩, htag⟩ := hrows entry.1 (List.fst_mem_of_mem_zipIdx hentry)
  simp [htag]

section

variable {env : Env} {call : Call} {b : Box} {plan : UserUpdatePlan} {outbounds : Manager}
  {prepared : List Outbound} {s : Stages} {oldOut : Dict String Object}

def changedRows (oldOut newOut : Dict String Object) : List (String × Object) :=
  newOut.entries.filter (fun entry => oldOut.get? entry.1 ≠ some entry.2)

theorem mem_changedRows {newOut : Dict String Object} {tag : String} {row : Object} :
    (tag, row) ∈ changedRows oldOut newOut ↔ newOut.get? tag = some row ∧
    oldOut.get? tag ≠ some row := by
  simp [changedRows, Dict.mem_entries_iff]

theorem changedRows_nodup (oldOut newOut : Dict String Object) :
    ((changedRows oldOut newOut).map Prod.fst).Nodup :=
  newOut.nodup.sublist (List.filter_sublist.map _)

theorem wantedOutbounds_made (h : Accepted env.lib b.config call.updated plan s) :
    (wantedOutbounds call plan).map Wanted.made =
      (changedRows s.oldOut s.newOut).map (fun entry => ⟨entry.1, entry.2⟩) := by
  obtain ⟨hentries, hrows⟩ := namedRows_ok h.newOut
  have hchanged : (rows call.updated "outbounds").filter
      (fun value => value.object? ≠ s.oldOut.get? (tagOf value)) =
      (rows call.updated "outbounds").filter
        (fun value => s.oldOut.get? (tagOf value) ≠ some (value.object?.getD [])) := by
    refine List.filter_congr (fun value hvalue => ?_)
    obtain ⟨⟨row, rfl⟩, -⟩ := hrows value hvalue
    exact decide_eq_decide.mpr ne_comm
  rw [changedRows, hentries, filterMap_tagged hrows, List.filter_map, List.map_map, wantedOutbounds,
    h.outboundIndexes]
  refine Eq.trans ?_ (congrArg (List.map _) (map_getD_indexes _ _ |>.trans hchanged))
  rw [List.map_map, List.map_map]
  rfl

theorem mem_removedOutbounds (h : Accepted env.lib b.config call.updated plan s) (tag : String) :
    tag ∈ plan.removedOutbounds ↔ ∃ row, s.oldOut.get? tag = some row ∧
    s.newOut.get? tag ≠ some row := by
  rw [h.removedOutbounds]
  simp [Stages.change, outboundChange, Dict.mem_entries_iff]

structure Replacing (s : Stages) (m outbounds : Manager) (prepared : List Outbound)
    (removed : List String) : Prop where
  built : ∃ k, Manager.Builds m outbounds k ∧ prepared = List.range' m.constructed k
  closed : outbounds.closed = m.closed
  made : prepared.map outbounds.made =
    (changedRows s.oldOut s.newOut).map (fun entry => ⟨entry.1, entry.2⟩)
  mem_removed : ∀ tag, tag ∈ removed ↔ ∃ row, s.oldOut.get? tag = some row ∧
    s.newOut.get? tag ≠ some row
  nodup : removed.Nodup
  removable : ∀ tag ∈ removed, ∃ old, m.outboundByTag.get? tag = some old ∧
    m.defaultOutbound ≠ some (.outbound old)

theorem replacing (h : Accepted env.lib b.config call.updated plan s)
    (hready : preparedOutbounds env b call plan = (outbounds, .ok prepared)) :
    Replacing s b.outbounds outbounds prepared plan.removedOutbounds := by
  obtain ⟨k, hbuilds, ⟨message, herror, -⟩ | ⟨hclosed, hok, hforall, hremovable⟩⟩ :=
    b.outbounds.prepareUserUpdate_cases env.dependencies (wantedOutbounds call plan)
      plan.removedOutbounds
  all_goals rw [preparedOutbounds] at hready
  · rw [hready] at herror
    cases herror
  rw [hready] at hbuilds hclosed hok hforall
  cases hok
  refine ⟨⟨k, hbuilds, rfl⟩, hclosed, ?_, mem_removedOutbounds h, ?_, hremovable⟩
  · rw [← wantedOutbounds_made h]
    symm
    rw [← List.forall₂_eq_eq_eq, List.forall₂_map_left_iff, List.forall₂_map_right_iff]
    exact hforall.imp (fun _ _ hmade => hmade.1.symm)
  · rw [h.removedOutbounds]
    exact s.oldOut.nodup.sublist (List.filter_sublist.map _)

theorem rejected_outbounds (h : (reloadUsers env call b).2 ≠ .accepted) :
    ∃ k, Manager.Builds b.outbounds (reloadUsers env call b).1.outbounds k ∧
      (reloadUsers env call b).1.outbounds.closed = b.outbounds.closed ++
      List.range' b.outbounds.constructed k := by
  have hsame : Manager.Builds b.outbounds b.outbounds 0 ∧
      b.outbounds.closed = b.outbounds.closed ++ List.range' b.outbounds.constructed 0 :=
    ⟨⟨rfl, rfl, rfl, rfl, rfl, rfl, rfl, fun _ _ => rfl⟩, (List.append_nil _).symm⟩
  have hends := reload_ends env call b
  generalize reloadUsers env call b = result at h hends
  cases hends with
  | refused | rules => exact ⟨0, hsame⟩
  | @outbounds plan _ _ _ _ _ _ _ hready =>
    rw [preparedOutbounds] at hready
    obtain ⟨k, hbuilds, ⟨_, -, hclosed⟩ | ⟨-, hok, -, -⟩⟩ :=
      b.outbounds.prepareUserUpdate_cases env.dependencies (wantedOutbounds call plan)
        plan.removedOutbounds
    · rw [hready] at hbuilds hclosed
      exact ⟨k, hbuilds, hclosed⟩
    · rw [hready] at hok
      cases hok
  | accepted => exact absurd rfl h

namespace Replacing

variable {m : Manager} {removed : List String} (h : Replacing s m outbounds prepared removed)
  {tag : String}
include h

theorem tags : prepared.map (fun object => (outbounds.made object).tag) =
    (changedRows s.oldOut s.newOut).map Prod.fst := by
  have hmade := congrArg (List.map Made.tag) h.made
  simpa [Function.comp_def] using hmade

theorem get? (tag : String) : (outbounds.publish prepared removed).outboundByTag.get? tag =
    (prepared.find? (fun object => (outbounds.made object).tag = tag)).or
      (if tag ∈ removed then none else m.outboundByTag.get? tag) := by
  obtain ⟨k, hbuilds, -⟩ := h.built
  rw [Manager.publish_get? (by rw [h.tags]; exact changedRows_nodup _ _), hbuilds.outboundByTag]

theorem find?_eq_none (hnone : ∀ row, s.newOut.get? tag = some row → s.oldOut.get? tag = some row) :
    prepared.find? (fun object => (outbounds.made object).tag = tag) = none := by
  refine List.find?_eq_none.mpr (fun object hobject htag => ?_)
  have hmem : (outbounds.made object).tag ∈ (changedRows s.oldOut s.newOut).map Prod.fst :=
    h.tags ▸ List.mem_map_of_mem hobject
  rw [of_decide_eq_true htag] at hmem
  obtain ⟨⟨_, row⟩, hrow, rfl⟩ := List.mem_map.mp hmem
  obtain ⟨hnew, hold⟩ := mem_changedRows.mp hrow
  exact hold (hnone row hnew)

theorem get?_same (hsame : s.newOut.get? tag = s.oldOut.get? tag) :
    (outbounds.publish prepared removed).outboundByTag.get? tag = m.outboundByTag.get? tag := by
  have hkept : tag ∉ removed := by
    rw [h.mem_removed]
    rintro ⟨row, hold, hnew⟩
    exact hnew (hsame.trans hold)
  rw [h.get?, h.find?_eq_none (fun row hrow => hsame ▸ hrow), if_neg hkept, Option.none_or]

theorem get?_removed {row : Object} (hold : s.oldOut.get? tag = some row)
    (hnew : s.newOut.get? tag = none) :
    (outbounds.publish prepared removed).outboundByTag.get? tag = none := by
  have hgone : tag ∈ removed := (h.mem_removed tag).mpr ⟨row, hold, by rw [hnew]; nofun⟩
  rw [h.get?, h.find?_eq_none (fun row hrow => (by cases hnew.symm.trans hrow)), if_pos hgone,
    Option.none_or]

theorem get?_changed {row : Object} (hnew : s.newOut.get? tag = some row)
    (hold : s.oldOut.get? tag ≠ some row) :
    ∃ object ∈ prepared,
      (outbounds.publish prepared removed).outboundByTag.get? tag = some object ∧
      outbounds.made object = ⟨tag, row⟩ := by
  have hmem : (⟨tag, row⟩ : Made) ∈ prepared.map outbounds.made := by
    rw [h.made]
    exact List.mem_map.mpr ⟨(tag, row), mem_changedRows.mpr ⟨hnew, hold⟩, rfl⟩
  obtain ⟨object, hobject, hmade⟩ := List.mem_map.mp hmem
  have hfind : (prepared.find? (fun object => (outbounds.made object).tag = tag)).isSome := by
    rw [List.find?_isSome]
    exact ⟨object, hobject, by simp [hmade]⟩
  obtain ⟨found, hfound⟩ := Option.isSome_iff_exists.mp hfind
  refine ⟨found, List.mem_of_find?_eq_some hfound, by rw [h.get?, hfound, Option.some_or], ?_⟩
  have hmade' : outbounds.made found ∈
    (changedRows s.oldOut s.newOut).map (fun entry => Made.mk entry.1 entry.2) :=
    h.made ▸ List.mem_map_of_mem (List.mem_of_find?_eq_some hfound)
  obtain ⟨⟨tag', row'⟩, hrow, heq⟩ := List.mem_map.mp hmade'
  have htag : (outbounds.made found).tag = tag := by simpa using List.find?_some hfound
  rw [← heq] at htag ⊢
  obtain rfl : tag' = tag := htag
  rw [Option.some.inj ((mem_changedRows.mp hrow).1.symm.trans hnew)]

end Replacing

end

end NodeManager.ReloadedOutbounds
