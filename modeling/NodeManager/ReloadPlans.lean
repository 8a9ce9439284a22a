import NodeManager.UserReload

namespace NodeManager.ReloadPlans

open Dictionary JsonValues Outcomes UserReload

structure Stages where
  oldIn : Dict String Object
  newIn : Dict String Object
  scanned : Scope
  oldOut : Dict String Object
  newOut : Dict String Object
  oldPolicies : Policies
  newPolicies : Policies

def Stages.scope (s : Stages) : Scope := s.scanned.settle

def rules (config : Object) : List Json := rows (nested config "route") "rules"

def Stages.change (s : Stages) (after : Object) : OutboundChange :=
  outboundChange s.oldOut s.newOut (rows after "outbounds")

structure Accepted (lib : Library) (before after : Object) (plan : UserUpdatePlan)
    (s : Stages) : Prop where
  oldIn : namedRows (field before "inbounds") = .ok s.oldIn
  newIn : namedRows (field after "inbounds") = .ok s.newIn
  topology : s.oldIn.entries.length = s.newIn.entries.length ∧
    without before ["inbounds", "outbounds", "route"] =
    without after ["inbounds", "outbounds", "route"]
  route : without (nested before "route") ["rules"] = without (nested after "route") ["rules"]
  scanned : s.oldIn.entries.foldlM (scanInbound lib s.newIn) {} = .ok s.scanned
  final : keepsDefault (nested before "route") before after
  oldOut : namedRows (field before "outbounds") = .ok s.oldOut
  newOut : namedRows (field after "outbounds") = .ok s.newOut
  independent : ∀ tag ∈ (s.change after).changed,
    (s.oldOut.get? tag).all independent ∧ (s.newOut.get? tag).all independent
  global : ¬referencesFields (s.change after).changed (without before ["outbounds", "route"]) ∧
    ¬referencesFields (s.change after).changed (without (nested before "route") ["rules"])
  unreferenced : unreferenced (s.change after)
  oldPolicies : policies s.scope (s.change after) (rules before) = .ok s.oldPolicies
  newPolicies : policies s.scope (s.change after) (rules after) = .ok s.newPolicies
  fixed : s.oldPolicies.fixed = s.newPolicies.fixed
  ruleIndexes : planRules lib s.scope s.newOut (rules before).zipIdx (rules after) =
    .ok plan.ruleIndexes
  targets : targetsRemain (s.change after) (rules after)
  inboundIndexes : planInbounds lib s.oldIn plan.changedNames (rows after "inbounds").zipIdx =
    .ok plan.inboundIndexes
  changedNames : plan.changedNames =
    s.scope.known.filter (policyChanged (s.change after) s.oldPolicies s.newPolicies)
  outboundIndexes : plan.outboundIndexes = (s.change after).indexes
  removedOutbounds : plan.removedOutbounds = (s.change after).removed

theorem accepted {lib : Library} {before after : Object} {plan : UserUpdatePlan}
    (h : planUserUpdate lib before after = .ok plan) : ∃ s, Accepted lib before after plan s := by
  obtain ⟨oldIn, hoi, h⟩ := bind_eq_ok h
  obtain ⟨newIn, hni, h⟩ := bind_eq_ok h
  obtain ⟨_, htopology, h⟩ := bind_eq_ok h
  obtain ⟨_, hroute, h⟩ := bind_eq_ok h
  obtain ⟨scanned, hscanned, h⟩ := bind_eq_ok h
  obtain ⟨_, hfinal, h⟩ := bind_eq_ok h
  obtain ⟨oldOut, hoo, h⟩ := bind_eq_ok h
  obtain ⟨newOut, hno, h⟩ := bind_eq_ok h
  obtain ⟨_, hindependent, h⟩ := bind_eq_ok h
  obtain ⟨_, hglobal, h⟩ := bind_eq_ok h
  obtain ⟨_, hunreferenced, h⟩ := bind_eq_ok h
  obtain ⟨oldPolicies, hop, h⟩ := bind_eq_ok h
  obtain ⟨newPolicies, hnp, h⟩ := bind_eq_ok h
  obtain ⟨_, hfixed, h⟩ := bind_eq_ok h
  obtain ⟨ruleIndexes, hrules, h⟩ := bind_eq_ok h
  obtain ⟨_, htargets, h⟩ := bind_eq_ok h
  obtain ⟨inboundIndexes, hinbounds, h⟩ := bind_eq_ok h
  cases h
  exact ⟨⟨oldIn, newIn, scanned, oldOut, newOut, oldPolicies, newPolicies⟩,
    { oldIn := hoi
      newIn := hni
      topology := of_require htopology
      route := of_require hroute
      scanned := hscanned
      final := of_require hfinal
      oldOut := hoo
      newOut := hno
      independent := of_require hindependent
      global := of_require hglobal
      unreferenced := of_require hunreferenced
      oldPolicies := hop
      newPolicies := hnp
      fixed := of_require hfixed
      ruleIndexes := hrules
      targets := of_require htargets
      inboundIndexes := hinbounds
      changedNames := rfl
      outboundIndexes := rfl
      removedOutbounds := rfl }⟩

def tagged (value : Json) : Option (String × Object) :=
  value.object?.map (fun row => (tagOf value, row))

def rowTagged (list : List Json) (tag : String) : Option Object :=
  (list.filterMap Json.object?).find? (fun row => (text row "tag").getD "" = tag)

theorem object?_eq_some {value : Json} {row : Object} :
    value.object? = some row ↔ value = .obj row := by
  cases value <;> simp [Json.object?]

theorem tagOf_obj (row : Object) : tagOf (.obj row) = (text row "tag").getD "" := rfl

variable {result : Dict String Object}

theorem addRow_ok {result' : Dict String Object} {value : Json}
    (h : addRow result value = .ok result') :
    ∃ row, value = .obj row ∧ tagOf value ≠ "" ∧
    result'.entries = result.entries ++ [(tagOf value, row)] := by
  unfold addRow at h
  split at h
  · cases h
  next row hrow =>
    obtain rfl := object?_eq_some.mp hrow
    dsimp only at h
    split at h
    · cases h
    next htag =>
      rw [not_or] at htag
      cases h
      refine ⟨row, rfl, htag.1, ?_⟩
      rw [Dict.set, dif_neg htag.2]
      rfl

variable {object : Object}

theorem namedRows_ok {key : String} (h : namedRows (field object key) = .ok result) :
    result.entries = (rows object key).filterMap tagged ∧
      ∀ value ∈ rows object key, (∃ row, value = .obj row) ∧ tagOf value ≠ "" := by
  unfold rows
  cases hfield : field object key with
  | none =>
    rw [hfield] at h
    cases h
    exact ⟨rfl, nofun⟩
  | some value =>
    rw [hfield] at h
    cases value with
    | arr list =>
      refine foldlM_ok (motive := fun seen (s : Dict String Object) => s.entries =
        seen.filterMap tagged ∧
        ∀ value ∈ seen, (∃ row, value = .obj row) ∧ tagOf value ≠ "") ?_ ⟨rfl, nofun⟩ h
      rintro seen s value s' - ⟨hentries, hseen⟩ hstep
      obtain ⟨row, rfl, htag, hs'⟩ := addRow_ok hstep
      refine ⟨by rw [hs', hentries, List.filterMap_append]; rfl, ?_⟩
      intro value hvalue
      obtain hvalue | hvalue := List.mem_append.mp hvalue
      · exact hseen value hvalue
      · rw [List.mem_singleton.mp hvalue]
        exact ⟨⟨row, rfl⟩, htag⟩
    | null =>
      cases h
      exact ⟨rfl, nofun⟩
    | bool _ | num _ | str _ | obj _ => cases h

theorem filterMap_tagged {list : List Json}
    (h : ∀ value ∈ list, (∃ row, value = .obj row) ∧ tagOf value ≠ "") :
    list.filterMap tagged = list.map (fun value => (tagOf value, value.object?.getD [])) := by
  rw [← List.filterMap_eq_map]
  refine List.filterMap_congr (fun value hvalue => ?_)
  obtain ⟨⟨row, rfl⟩, -⟩ := h value hvalue
  rfl

theorem map_getD_indexes (list : List Json) (p : Json → Bool) :
    ((list.zipIdx.filter (fun entry => p entry.1)).map Prod.snd).map (list.getD · .null) =
    list.filter p := by
  have hfilter : list.filter p = (list.zipIdx.filter (fun entry => p entry.1)).map Prod.fst := by
    conv_lhs => rw [← List.zipIdx_map_fst 0 list, List.filter_map]
    rfl
  rw [hfilter, List.map_map]
  refine List.map_congr_left (fun entry hentry => ?_)
  have hget := List.mem_zipIdx_iff_getElem?.mp (List.mem_of_mem_filter hentry)
  simp [List.getD, hget]

theorem lookup_tagged (list : List Json) (tag : String) :
    (list.filterMap tagged).lookup tag = rowTagged list tag := by
  unfold rowTagged
  induction list with
  | nil => rfl
  | cons value list ih =>
    cases hvalue : value.object? with
    | none => simpa [tagged, hvalue] using ih
    | some row =>
      obtain rfl := object?_eq_some.mp hvalue
      by_cases htag : (text row "tag").getD "" = tag
      · simp [tagged, Json.object?, tagOf_obj, htag]
      · have hne : (tag == (text row "tag").getD "") = false := by simpa using fun h => htag h.symm
        simpa [tagged, Json.object?, tagOf_obj, htag, List.lookup_cons, hne] using ih

theorem get?_namedRows {key : String} (h : namedRows (field object key) = .ok result)
    (tag : String) :
    result.get? tag = rowTagged (rows object key) tag := by
  rw [Dict.get?, (namedRows_ok h).1, lookup_tagged]

def managed (lib : Library) (old next : Object) : Bool :=
  supported old && (validateUsers lib old).isOk && (validateUsers lib next).isOk

theorem scanInbound_cases {lib : Library} {newIn : Dict String Object} {scope scope' : Scope}
    {tag : String} {old : Object} (h : scanInbound lib newIn scope (tag, old) = .ok scope') :
    ∃ next, newIn.get? tag = some next ∧
      ((managed lib old next = false ∧ old = next ∧
          scope' = { scope with blocked := scope.blocked ++ blockedNames old }) ∨
        (supported old = true ∧ without old (mutableKeys old) = without next (mutableKeys old) ∧
          ∃ oldNames newNames, validateUsers lib old = .ok oldNames ∧
          validateUsers lib next = .ok newNames ∧
            scope' = { scope with known := scope.known ++ oldNames ++ newNames })) := by
  unfold scanInbound at h
  split at h
  · cases h
  next next hnext =>
    refine ⟨next, hnext, ?_⟩
    dsimp only at h
    split at h
    next hkind =>
      have hs : supported old = false := by simpa using hkind
      split at h
      · cases h
      next hsame =>
        cases h
        exact .inl ⟨by simp [managed, hs], not_not.mp hsame, rfl⟩
    next hkind =>
      have hs : supported old = true := not_not.mp hkind
      split at h
      · cases h
      split at h
      · cases h
      next hbase =>
        split at h
        next oldNames newNames hold hnew =>
          cases h
          exact .inr ⟨hs, not_not.mp hbase, oldNames, newNames, hold, hnew, rfl⟩
        next hinvalid =>
          split at h
          · cases h
          next hsame =>
            cases h
            refine .inl ⟨?_, not_not.mp hsame, rfl⟩
            cases hold : validateUsers lib old with
            | error _ => simp [managed, hold, Except.isOk, Except.toBool]
            | ok oldNames =>
              cases hnew : validateUsers lib next with
              | error _ => simp [managed, hnew, Except.isOk, Except.toBool]
              | ok newNames => exact absurd hnew (fun _ => hinvalid oldNames newNames hold hnew)

def inboundsOf (config : Object) : List Object := (rows config "inbounds").filterMap Json.object?

def successor (after old : Object) : Object :=
  (rowTagged (rows after "inbounds") ((text old "tag").getD "")).getD []

def managedInbounds (lib : Library) (before after : Object) : List Object :=
  (inboundsOf before).filter (fun old => managed lib old (successor after old))

def unmanagedInbounds (lib : Library) (before after : Object) : List Object :=
  (inboundsOf before).filter (fun old => !managed lib old (successor after old))

def namesAround (lib : Library) (after old : Object) : List String :=
  ((validateUsers lib old).toOption.getD []) ++
    ((validateUsers lib (successor after old)).toOption.getD [])

theorem map_snd_tagged (list : List Json) :
    (list.filterMap tagged).map Prod.snd = list.filterMap Json.object? := by
  rw [List.map_filterMap]
  congr 1
  funext value
  simp [tagged, Option.map_map, Function.comp_def]

theorem tag_of_mem_tagged {list : List Json} {entry : String × Object}
    (h : entry ∈ list.filterMap tagged) :
    entry.1 = (text entry.2 "tag").getD "" := by
  obtain ⟨value, -, hvalue⟩ := List.mem_filterMap.mp h
  obtain ⟨row, hrow, rfl⟩ := Option.map_eq_some_iff.mp hvalue
  rw [object?_eq_some.mp hrow]
  rfl

section

variable {lib : Library} {before after : Object} {plan : UserUpdatePlan} {s : Stages} {tag : String}

theorem Accepted.entries (h : Accepted lib before after plan s) :
    s.oldIn.entries.map Prod.snd = inboundsOf before := by
  rw [(namedRows_ok h.oldIn).1, map_snd_tagged]
  rfl

theorem Accepted.successor_eq (h : Accepted lib before after plan s) {old next : Object}
    (hmem : (tag, old) ∈ s.oldIn.entries) (hnext : s.newIn.get? tag = some next) :
    successor after old = next := by
  rw [(namedRows_ok h.oldIn).1] at hmem
  have htag : tag = (text old "tag").getD "" := tag_of_mem_tagged hmem
  rw [get?_namedRows h.newIn, htag] at hnext
  simp only [successor, hnext, Option.getD_some]

theorem Accepted.scanned_eq (h : Accepted lib before after plan s) :
    s.scanned = ⟨(managedInbounds lib before after).flatMap (namesAround lib after),
      (unmanagedInbounds lib before after).flatMap blockedNames⟩ := by
  unfold managedInbounds unmanagedInbounds
  rw [← h.entries]
  refine foldlM_ok (motive := fun seen scope => scope =
    ⟨((seen.map Prod.snd).filter (fun old => managed lib old (successor after old))).flatMap
      (namesAround lib after), ((seen.map Prod.snd).filter
        (fun old => !managed lib old (successor after old))).flatMap blockedNames⟩)
    ?_ rfl h.scanned
  rintro seen scope ⟨tag, old⟩ scope' hmem rfl hstep
  obtain ⟨next, hnext, ⟨hmanaged, -, rfl⟩ | ⟨hs, -, oldNames, newNames, hold, hnew, rfl⟩⟩ :=
    scanInbound_cases hstep
  · rw [← h.successor_eq hmem hnext] at hmanaged
    simp [hmanaged]
  obtain rfl := h.successor_eq hmem hnext
  have hmanaged : managed lib old (successor after old) = true := by
    simp [managed, hs, hold, hnew, Except.isOk, Except.toBool]
  have hnames : namesAround lib after old = oldNames ++ newNames := by
    simp [namesAround, hold, hnew, Except.toOption]
  simp [hmanaged, hnames]

theorem reuseRule_cases (lib : Library) (unused : Unused) (next : Json) :
    reuseRule lib unused next = (none, unused) ∨
      ∃ k, (next, k) ∈ unused ∧ reuseRule lib unused next = (some k, unused.erase (next, k)) := by
  unfold reuseRule
  split
  next entry hentry =>
    split
    next heq =>
      subst heq
      exact .inr ⟨entry.2, List.mem_of_find?_eq_some hentry, rfl⟩
    · exact .inl rfl
  · exact .inl rfl

theorem planRules_spec {lib : Library} {scope : Scope} {newOut : Dict String Object}
    {list : List Json} {unused : Unused} {indexes : List (Option Nat)}
    (hnodup : (unused.map Prod.snd).Nodup)
    (h : planRules lib scope newOut unused list = .ok indexes) :
    List.Forall₂ (fun next index => ∀ k, index = some k → (next, k) ∈ unused) list indexes ∧
      (indexes.filterMap id).Nodup ∧ ∀ k ∈ indexes.filterMap id, k ∈ unused.map Prod.snd := by
  induction list generalizing unused indexes with
  | nil =>
    cases h
    exact ⟨.nil, List.nodup_nil, nofun⟩
  | cons next rest ih =>
    unfold planRules at h
    dsimp only at h
    split at h
    · cases h
    split at h
    · cases h
    obtain ⟨tail, htail, h⟩ := bind_eq_ok h
    cases h
    obtain heq | ⟨k, hmem, heq⟩ := reuseRule_cases lib unused next
    · rw [heq] at htail ⊢
      obtain ⟨hforall, hdistinct, hall⟩ := ih hnodup htail
      exact ⟨.cons nofun hforall, hdistinct, hall⟩
    rw [heq] at htail ⊢
    have hsub : (unused.erase (next, k)).Sublist unused := List.erase_sublist
    obtain ⟨hforall, hdistinct, hall⟩ := ih (hnodup.sublist (hsub.map _)) htail
    have hused : k ∉ (unused.erase (next, k)).map Prod.snd := by
      have hperm := (List.perm_cons_erase hmem).map Prod.snd
      exact (List.nodup_cons.mp (hperm.nodup_iff.mp hnodup)).1
    refine ⟨.cons (fun j hj => ?_)
      (hforall.imp (fun _ _ hin j hj => hsub.subset (hin j hj))), ?_, ?_⟩
    · cases hj
      exact hmem
    · exact List.nodup_cons.mpr ⟨fun hk => hused (hall k hk), hdistinct⟩
    intro j hj
    obtain rfl | hj := List.mem_cons.mp hj
    · exact List.mem_map_of_mem hmem
    · exact (hsub.map Prod.snd).subset (hall j hj)

theorem Accepted.outbound_same (h : Accepted lib before after plan s)
    (htag : tag ∉ (s.change after).changed) :
    s.oldOut.get? tag = s.newOut.get? tag := by
  simp only [Stages.change, outboundChange, List.mem_append, not_or, List.mem_map, not_exists,
    not_and] at htag
  cases hold : s.oldOut.get? tag with
  | some row =>
    have hmem : (tag, row) ∈ s.oldOut.entries := Dict.mem_entries_iff.mpr hold
    have hkept := htag.1 (tag, row)
    simp only [List.mem_filter, hmem, true_and, decide_eq_true_eq, not_true_eq_false, imp_false,
      not_not] at hkept
    exact hkept.symm
  | none =>
    cases hnew : s.newOut.get? tag with
    | none => rfl
    | some row =>
      have hmem : (tag, row) ∈ s.newOut.entries := Dict.mem_entries_iff.mpr hnew
      rw [(namedRows_ok h.newOut).1] at hmem
      obtain ⟨value, hvalue, htagged⟩ := List.mem_filterMap.mp hmem
      obtain ⟨row', hrow, heq⟩ := Option.map_eq_some_iff.mp htagged
      cases heq
      refine absurd rfl (htag.2 value (List.mem_filter.mpr ⟨hvalue, ?_⟩))
      simp [hrow, hold]

theorem text_outbound_not_mem {tags : List String} {row : Object}
    (h : referencesFields tags row = false) (htext : text row "outbound" = some tag) :
    tag ∉ tags := by
  induction row with
  | nil => cases htext
  | cons entry row ih =>
    obtain ⟨key, value⟩ := entry
    simp only [referencesFields, Bool.or_eq_false_iff] at h
    by_cases hkey : key = "outbound"
    · subst hkey
      have hvalue : value.str? = some tag := by simpa [text, field] using htext
      simpa [hvalue] using h.1.1
    · refine ih h.2 ?_
      have hne : ("outbound" == key) = false := by simpa using Ne.symm hkey
      simpa [text, field, List.lookup_cons, hne] using htext

end

end NodeManager.ReloadPlans
