import NodeManager.Dictionary
import NodeManager.JsonValues
import NodeManager.Outcomes

namespace NodeManager.OutboundManager

open Dictionary JsonValues

abbrev Outbound := Nat

structure Made where
  tag : String := ""
  options : Object := []
  deriving DecidableEq

inductive Default
  | outbound (object : Outbound)
  | endpoint (tag : String)
  deriving DecidableEq, Repr

/-- `made` is what each object was constructed from, `closed` every call of `Close`. -/
structure Manager where
  defaultTag : String := ""
  endpoints : List String := []
  outbounds : List Outbound := []
  outboundByTag : Dict String Outbound := Dict.empty
  dependByTag : String → List String := fun _ => []
  defaultOutbound : Option Default := none
  constructed : Nat := 0
  made : Outbound → Made := fun _ => {}
  closed : List Outbound := []

def fallback : Made := ⟨"direct", [("tag", .str "direct"), ("type", .str "direct")]⟩

namespace Manager

def newOutbound (m : Manager) (made : Made) : Manager :=
  { m with constructed := m.constructed + 1, made := Function.update m.made m.constructed made }

def closeOutbounds (m : Manager) (objects : List Outbound) : Manager :=
  { m with closed := m.closed ++ objects }

def create (dependencies : Object → List String) (m : Manager) (made : Made) : Manager :=
  let object := m.constructed
  let built := m.newOutbound made
  { built with
    outbounds := m.outbounds.filter
      (fun old => m.outboundByTag.get? made.tag ≠ some old) ++ [object]
    outboundByTag := m.outboundByTag.set made.tag object
    dependByTag := (dependencies made.options).foldl
      (fun depend tag => Function.update depend tag (depend tag ++ [made.tag])) m.dependByTag
    defaultOutbound :=
      if made.tag = m.defaultTag ∨ (m.defaultTag = "" ∧ m.defaultOutbound = none) then
        some (.outbound object)
      else m.defaultOutbound }

def start (m : Manager) : Except String Manager :=
  if m.defaultTag ≠ "" ∧ m.defaultOutbound = none then
    if m.defaultTag ∈ m.endpoints then
      .ok { m with defaultOutbound := some (.endpoint m.defaultTag) }
    else .error ("default outbound not found: " ++ m.defaultTag)
  else if m.defaultOutbound = none then
    .ok { m.newOutbound fallback with
      outbounds := m.outbounds ++ [m.constructed]
      outboundByTag := m.outboundByTag.set fallback.tag m.constructed
      defaultOutbound := some (.outbound m.constructed) }
  else .ok m

end Manager

inductive Fate
  | works
  | newFails (message : String)
  | startFails (message : String)
  deriving DecidableEq, Repr

structure Wanted where
  made : Made
  fate : Fate := .works

namespace Manager

def removable (dependencies : Object → List String) (m : Manager) (tag : String) : Bool :=
  match m.outboundByTag.get? tag with
  | none => false
  | some old =>
    m.defaultOutbound ≠ some (.outbound old) && m.dependByTag tag = [] &&
      dependencies (m.made old).options = []

def prepareOutbounds (dependencies : Object → List String) : List Wanted → Manager → List Outbound →
    Manager × Except String (List Outbound)
  | [], m, prepared => (m, .ok prepared)
  | wanted :: rest, m, prepared =>
    let kind := text wanted.made.options "type"
    if kind ≠ some "direct" ∧ kind ≠ some "socks" then
      (m.closeOutbounds prepared, .error "unsupported user outbound type")
    else if wanted.made.tag ∈ m.endpoints then
      (m.closeOutbounds prepared, .error "outbound tag overlaps an endpoint")
    else
      match wanted.fate with
      | .newFails message => (m.closeOutbounds prepared, .error message)
      | fate =>
        let built := m.newOutbound wanted.made
        let all := prepared ++ [m.constructed]
        if dependencies wanted.made.options ≠ [] then
          (built.closeOutbounds all, .error "dynamic user outbounds cannot have dependencies")
        else
          match fate with
          | .startFails message => (built.closeOutbounds all, .error message)
          | _ => prepareOutbounds dependencies rest built all

def prepareUserUpdate (dependencies : Object → List String) (m : Manager) (options : List Wanted)
    (remove : List String) : Manager × Except String (List Outbound) :=
  if remove.all (m.removable dependencies) then prepareOutbounds dependencies options m []
  else (m, .error "outbound is shared, default, dependent, or unavailable")

def publish (m : Manager) (prepared : List Outbound) (remove : List String) : Manager :=
  { m with
    outbounds := m.outbounds.filter (fun object => (m.made object).tag ∉ remove) ++ prepared
    outboundByTag := prepared.foldl (fun byTag object => byTag.set (m.made object).tag object)
      (remove.foldl Dict.erase m.outboundByTag) }

def retired (m : Manager) (remove : List String) : List Outbound :=
  remove.filterMap m.outboundByTag.get?

theorem start_cases {m m' : Manager} (h : m.start = .ok m') :
    (m.defaultTag ≠ "" ∧ m.defaultOutbound = none ∧ m.defaultTag ∈ m.endpoints ∧
        m' = { m with defaultOutbound := some (.endpoint m.defaultTag) }) ∨
      (m.defaultTag = "" ∧ m.defaultOutbound = none ∧
        m' = { m.newOutbound fallback with
          outbounds := m.outbounds ++ [m.constructed]
          outboundByTag := m.outboundByTag.set fallback.tag m.constructed
          defaultOutbound := some (.outbound m.constructed) }) ∨
      (m.defaultOutbound ≠ none ∧ m' = m) := by
  unfold start at h
  split at h
  next hnone =>
    split at h
    next hendpoint =>
      cases h
      exact .inl ⟨hnone.1, hnone.2, hendpoint, rfl⟩
    · cases h
  next hsome =>
    split at h
    next hnone =>
      cases h
      exact .inr (.inl ⟨by_contra (fun htag => hsome ⟨htag, hnone⟩), hnone, rfl⟩)
    next hdefault =>
      cases h
      exact .inr (.inr ⟨hdefault, rfl⟩)

theorem publish_get? {m : Manager} {prepared : List Outbound}
    (h : (prepared.map (fun o => (m.made o).tag)).Nodup) (remove : List String) (tag : String) :
    (m.publish prepared remove).outboundByTag.get? tag =
      (prepared.find? (fun o => (m.made o).tag = tag)).or
        (if tag ∈ remove then none else m.outboundByTag.get? tag) := by
  rw [publish, Dict.get?_foldl_set_key _ (fun o => (m.made o).tag) _ h, Dict.get?_foldl_erase]

/-- The manager differs in `k` new outbound objects, and in what was closed. -/
structure Builds (m m' : Manager) (k : Nat) : Prop where
  defaultTag : m'.defaultTag = m.defaultTag
  endpoints : m'.endpoints = m.endpoints
  dependByTag : m'.dependByTag = m.dependByTag
  outbounds : m'.outbounds = m.outbounds
  outboundByTag : m'.outboundByTag = m.outboundByTag
  defaultOutbound : m'.defaultOutbound = m.defaultOutbound
  constructed : m'.constructed = m.constructed + k
  made : ∀ object, object < m.constructed → m'.made object = m.made object

theorem Builds.closeOutbounds (m : Manager) (objects : List Outbound) :
    Builds m (m.closeOutbounds objects) 0 :=
  ⟨rfl, rfl, rfl, rfl, rfl, rfl, rfl, fun _ _ => rfl⟩

theorem Builds.newOutbound {m m' : Manager} {k : Nat} {made : Made}
    (h : Builds (m.newOutbound made) m' k) :
    Builds m m' (k + 1) where
  defaultTag := h.defaultTag
  endpoints := h.endpoints
  dependByTag := h.dependByTag
  outbounds := h.outbounds
  outboundByTag := h.outboundByTag
  defaultOutbound := h.defaultOutbound
  constructed := by rw [h.constructed, Manager.newOutbound, Nat.add_right_comm, Nat.add_assoc]
  made object hobject := (h.made object (Nat.lt_succ_of_lt hobject)).trans
    (Function.update_of_ne (Nat.ne_of_lt hobject) _ _)

theorem prepareOutbounds_cases (dependencies : Object → List String) (wanted : List Wanted)
    (m : Manager) (prepared : List Outbound) :
    ∃ k, Builds m (prepareOutbounds dependencies wanted m prepared).1 k ∧
      ((∃ message, (prepareOutbounds dependencies wanted m prepared).2 = .error message ∧
          (prepareOutbounds dependencies wanted m prepared).1.closed =
            m.closed ++ (prepared ++ List.range' m.constructed k)) ∨
        ((prepareOutbounds dependencies wanted m prepared).1.closed = m.closed ∧
          (prepareOutbounds dependencies wanted m prepared).2 =
          .ok (prepared ++ List.range' m.constructed k) ∧
            List.Forall₂ (fun w object =>
              (prepareOutbounds dependencies wanted m prepared).1.made object = w.made ∧
              w.made.tag ∉ m.endpoints) wanted (List.range' m.constructed k))) := by
  induction wanted generalizing m prepared with
  | nil =>
    exact ⟨0, ⟨rfl, rfl, rfl, rfl, rfl, rfl, rfl, fun _ _ => rfl⟩,
      .inr ⟨rfl, by simp [prepareOutbounds], .nil⟩⟩
  | cons w rest ih =>
    have hnone : (m.closeOutbounds prepared).closed = m.closed ++
        (prepared ++ List.range' m.constructed 0) := by
      simp [Manager.closeOutbounds]
    have hone : Builds m ((m.newOutbound w.made).closeOutbounds (prepared ++ [m.constructed])) 1 :=
      Builds.newOutbound (.closeOutbounds _ _)
    unfold prepareOutbounds
    dsimp only
    split
    · exact ⟨0, .closeOutbounds m prepared, .inl ⟨_, rfl, hnone⟩⟩
    split
    · exact ⟨0, .closeOutbounds m prepared, .inl ⟨_, rfl, hnone⟩⟩
    next hendpoint =>
      split
      · exact ⟨0, .closeOutbounds m prepared, .inl ⟨_, rfl, hnone⟩⟩
      split
      · exact ⟨1, hone, .inl ⟨_, rfl, rfl⟩⟩
      split
      · exact ⟨1, hone, .inl ⟨_, rfl, rfl⟩⟩
      obtain ⟨k, hbuilds, ⟨message, herror, hclosed⟩ | ⟨hclosed, hok, hforall⟩⟩ :=
        ih (m.newOutbound w.made) (prepared ++ [m.constructed])
      · refine ⟨k + 1, hbuilds.newOutbound, .inl ⟨message, herror, ?_⟩⟩
        rw [hclosed, List.range'_succ, List.append_assoc]
        rfl
      refine ⟨k + 1, hbuilds.newOutbound, .inr ⟨hclosed, ?_, ?_⟩⟩
      · rw [hok, List.range'_succ, List.append_assoc]
        rfl
      · refine .cons ⟨?_, hendpoint⟩ hforall
        exact (hbuilds.made _ (Nat.lt_succ_self _)).trans (Function.update_self _ _ _)

theorem prepareUserUpdate_cases (dependencies : Object → List String) (m : Manager)
    (options : List Wanted) (remove : List String) :
    ∃ k, Builds m (m.prepareUserUpdate dependencies options remove).1 k ∧
      ((∃ message, (m.prepareUserUpdate dependencies options remove).2 = .error message ∧
          (m.prepareUserUpdate dependencies options remove).1.closed = m.closed ++
          List.range' m.constructed k) ∨
        ((m.prepareUserUpdate dependencies options remove).1.closed = m.closed ∧
          (m.prepareUserUpdate dependencies options remove).2 = .ok (List.range' m.constructed k) ∧
          List.Forall₂ (fun w object =>
            (m.prepareUserUpdate dependencies options remove).1.made object = w.made ∧
            w.made.tag ∉ m.endpoints) options (List.range' m.constructed k) ∧
          ∀ tag ∈ remove, ∃ old, m.outboundByTag.get? tag = some old ∧
          m.defaultOutbound ≠ some (.outbound old))) := by
  unfold prepareUserUpdate
  split
  next hremove =>
    obtain ⟨k, hbuilds, ⟨message, herror, hclosed⟩ | ⟨hclosed, hok, hforall⟩⟩ :=
      prepareOutbounds_cases dependencies options m []
    · exact ⟨k, hbuilds, .inl ⟨message, herror, hclosed⟩⟩
    refine ⟨k, hbuilds, .inr ⟨hclosed, hok, hforall, fun tag htag => ?_⟩⟩
    have hremovable := List.all_eq_true.mp hremove tag htag
    unfold removable at hremovable
    split at hremovable
    · cases hremovable
    next old hold =>
      simp only [Bool.and_eq_true, decide_eq_true_eq] at hremovable
      exact ⟨old, hold, hremovable.1.1⟩
  · exact ⟨0, ⟨rfl, rfl, rfl, rfl, rfl, rfl, rfl, fun _ _ => rfl⟩, .inl ⟨_, rfl, by simp⟩⟩

end Manager

end NodeManager.OutboundManager
